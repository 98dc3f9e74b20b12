import StrategyTree.Prices.File
import StrategyTree.Proofs.Outcome
/-!
# Rows of price files

What the text of a price file holds is said of its records: the headers name the columns, and
every other record gives a row. A file is read exactly if all its records give rows. Otherwise
it is at fault for the first column that is missing, or for the first record that gives no
row, and such a record for the first of its fields that cannot be read.
-/
namespace StrategyTree.PriceFile

open Outcome

/-! ### Columns -/

/-- A header names a column in letters of any case, with or without blanks around. -/
def Names (name header : String) : Prop :=
  (Text.trimChars header.toList).map Char.toLower = name.toList

/-- The first column with a name is at this place. -/
def IsColumn (headers : List String) (name : String) (i : Nat) : Prop :=
  ∃ h : i < headers.length, Names name headers[i] ∧ ∀ j (hj : j < i), ¬Names name headers[j]

def LacksColumn (headers : List String) (name : String) : Prop :=
  ∀ header ∈ headers, ¬Names name header

structure HasColumns (headers : List String) (c : Columns) : Prop where
  date : IsColumn headers "date" c.date
  opening : IsColumn headers "open" c.opening
  close : IsColumn headers "close" c.close
  high {i : Nat} : c.high = some i ↔ IsColumn headers "high" i
  low {i : Nat} : c.low = some i ↔ IsColumn headers "low" i
  /-- The adjusted close has two names, of which the first counts if both are there. -/
  adjusted {i : Nat} : c.adjusted = some i ↔ IsColumn headers "adj_close" i ∨
    LacksColumn headers "adj_close" ∧ IsColumn headers "adjclose" i

/-- A column is not there, which is told with the path of the file. -/
def ColumnFault (path : String) (headers : List String) (name : String) (e : Failure) : Prop :=
  LacksColumn headers name ∧ e = .dataSource s!"{path}: missing {name} column"

section Columns
variable {path : String} {headers : List String} {name : String} {c : Columns}

theorem column?_eq_some {i : Nat} : column? headers name = some i ↔ IsColumn headers name i := by
  rw [column?, List.findIdx?_eq_some_iff_getElem]
  simp [IsColumn, Names]

theorem column?_eq_none : column? headers name = none ↔ LacksColumn headers name := by
  rw [column?, List.findIdx?_eq_none_iff]
  simp [LacksColumn, Names]

theorem requiredColumn_ok {i : Nat} :
    requiredColumn path headers name = .ok i ↔ IsColumn headers name i := by
  rw [requiredColumn, ← column?_eq_some]
  cases column? headers name <;> simp

theorem requiredColumn_error (e : Failure) :
    requiredColumn path headers name = .error e ↔ ColumnFault path headers name e := by
  rw [requiredColumn, ColumnFault, ← column?_eq_none]
  cases column? headers name <;> simp [eq_comm]

theorem adjustedColumn_eq_some {i : Nat} :
    (column? headers "adj_close").or (column? headers "adjclose") = some i ↔
      IsColumn headers "adj_close" i ∨
        LacksColumn headers "adj_close" ∧ IsColumn headers "adjclose" i := by
  rw [Option.or_eq_some_iff, column?_eq_some, column?_eq_some, column?_eq_none]

theorem columns_ok : columns path headers = .ok c ↔ HasColumns headers c := by
  constructor
  · intro h
    obtain ⟨date, hdate, h⟩ := bind_ok.1 h
    obtain ⟨opening, hopening, h⟩ := bind_ok.1 h
    obtain ⟨close, hclose, h⟩ := bind_ok.1 h
    obtain rfl := Except.ok.inj h
    exact ⟨requiredColumn_ok.1 hdate, requiredColumn_ok.1 hopening, requiredColumn_ok.1 hclose,
      column?_eq_some, column?_eq_some, adjustedColumn_eq_some⟩
  · intro h
    have hhigh : column? headers "high" = c.high :=
      Option.ext fun _ => column?_eq_some.trans h.high.symm
    have hlow : column? headers "low" = c.low :=
      Option.ext fun _ => column?_eq_some.trans h.low.symm
    have hadjusted : (column? headers "adj_close").or (column? headers "adjclose") = c.adjusted :=
      Option.ext fun _ => adjustedColumn_eq_some.trans h.adjusted.symm
    rw [columns, requiredColumn_ok.2 h.date, requiredColumn_ok.2 h.opening,
      requiredColumn_ok.2 h.close, hhigh, hlow, hadjusted]
    rfl

theorem columns_error {e : Failure} : columns path headers = .error e ↔
    FirstOf (["date", "open", "close"].map (ColumnFault path headers)) e :=
  firstOf_bind requiredColumn_error fun _ => firstOf_bind requiredColumn_error fun _ =>
    firstOf_bind requiredColumn_error fun _ => firstOf_ok _

end Columns

/-! ### Fields -/

section Fields
variable {record : List String} {name : String} {e : Failure}

/-- A field is read as a date, without the blanks around it. -/
def IsDate (record : List String) (column : Nat) (d : Date) : Prop :=
  ∃ text, record[column]? = some text ∧ Date.ofText? (Text.trim text) = some d

/-- A field is read as a price, without the blanks around it. -/
def IsPrice (record : List String) (column : Nat) (x : Binary64) : Prop :=
  ∃ text value, record[column]? = some text ∧ Decimal.float? (Text.trim text) = .ok value ∧
    x = .ofFloat value

/-- A column that is not there has no value, and neither has a blank field. -/
def LacksValue (record : List String) (column : Option Nat) : Prop :=
  ∀ i ∈ column, ∀ text ∈ record[i]?, Text.isBlankText text = true

/-- A price, or the default where there is no value. -/
def IsPriceOr (record : List String) (column : Option Nat) (default x : Binary64) : Prop :=
  LacksValue record column ∧ x = default ∨
    ¬LacksValue record column ∧ ∃ i ∈ column, IsPrice record i x

/-- A field is not there, which is told with the name of its column. -/
def FieldFault (record : List String) (name : String) (column : Nat) (e : Failure) : Prop :=
  record[column]? = none ∧ e = .dataSource s!"missing {name} value"

inductive DateFault (record : List String) (column : Nat) : Failure → Prop
  | missing {e : Failure} : FieldFault record "date" column e → DateFault record column e
  | invalid {text : String} : record[column]? = some text →
      Date.ofText? (Text.trim text) = none →
      DateFault record column (.dataSource "invalid date format")

/-- A text that is no number is told as it is in the file, with the blanks around it. -/
inductive PriceFault (record : List String) (name : String) (column : Nat) : Failure → Prop
  | missing {e : Failure} : FieldFault record name column e → PriceFault record name column e
  | invalid {text : String} {fault : Decimal.NumberFault} : record[column]? = some text →
      Decimal.float? (Text.trim text) = .error fault →
      PriceFault record name column (.dataSource s!"invalid {name} '{text}': {fault.message}")

/-- A value that need not be there is at fault only if it is there. -/
def PriceOrFault (record : List String) (name : String) (column : Option Nat) (e : Failure) :
    Prop :=
  ¬LacksValue record column ∧ ∃ i ∈ column, PriceFault record name i e

theorem field_ok {text : String} {column : Nat} :
    field record name column = .ok text ↔ record[column]? = some text := by
  rw [field]
  cases record[column]? <;> simp

theorem field_error {column : Nat} :
    field record name column = .error e ↔ FieldFault record name column e := by
  rw [field, FieldFault]
  cases record[column]? <;> simp [eq_comm]

theorem date_ok {column : Nat} {d : Date} :
    date record column = .ok d ↔ IsDate record column d := by
  rw [date, bind_ok]
  refine exists_congr fun text => and_congr field_ok ?_
  cases Date.ofText? (Text.trim text) <;> simp [pure, Except.pure, throw, throwThe]

theorem date_error {column : Nat} (e : Failure) :
    date record column = .error e ↔ DateFault record column e := by
  rw [date, bind_error]
  constructor
  · rintro (h | ⟨text, htext, h⟩)
    · exact .missing (field_error.1 h)
    · split at h
      · cases h
      · next hinvalid =>
          obtain rfl := Except.error.inj h
          exact .invalid (field_ok.1 htext) hinvalid
  · rintro (hmissing | ⟨htext, hinvalid⟩)
    · exact .inl (field_error.2 hmissing)
    · exact .inr ⟨_, field_ok.2 htext, by rw [hinvalid]; rfl⟩

theorem price_ok {column : Nat} {x : Binary64} :
    price record name column = .ok x ↔ IsPrice record column x := by
  rw [price, bind_ok, IsPrice]
  refine exists_congr fun text => ?_
  rw [field_ok, exists_and_left]
  refine and_congr_right fun _ => ?_
  cases Decimal.float? (Text.trim text) <;> simp [pure, Except.pure, throw, throwThe, eq_comm]

theorem price_error {column : Nat} (e : Failure) :
    price record name column = .error e ↔ PriceFault record name column e := by
  rw [price, bind_error]
  constructor
  · rintro (h | ⟨text, htext, h⟩)
    · exact .missing (field_error.1 h)
    · split at h
      · cases h
      · next fault hinvalid =>
          obtain rfl := Except.error.inj h
          exact .invalid (field_ok.1 htext) hinvalid
  · rintro (hmissing | ⟨htext, hinvalid⟩)
    · exact .inl (field_error.2 hmissing)
    · exact .inr ⟨_, field_ok.2 htext, by rw [hinvalid]; rfl⟩

theorem lacksValue_some {i : Nat} : LacksValue record (some i) ↔
    (record[i]?).all Text.isBlankText = true := by
  simp [LacksValue, Option.all_eq_true]

theorem priceOr_ok {column : Option Nat} {default x : Binary64} :
    priceOr record name column default = .ok x ↔ IsPriceOr record column default x := by
  unfold priceOr IsPriceOr
  have hsame : default = x ↔ x = default := eq_comm
  cases column with
  | none => simp [LacksValue, hsame]
  | some i =>
      by_cases hlacks : LacksValue record (some i)
      · simp [hlacks, lacksValue_some.1 hlacks, hsame]
      · simp [hlacks, mt lacksValue_some.2 hlacks, price_ok]

theorem priceOr_error {column : Option Nat} {default : Binary64} (e : Failure) :
    priceOr record name column default = .error e ↔ PriceOrFault record name column e := by
  unfold priceOr PriceOrFault
  cases column with
  | none => simp
  | some i =>
      by_cases hlacks : LacksValue record (some i)
      · simp [hlacks, lacksValue_some.1 hlacks]
      · simp [hlacks, mt lacksValue_some.2 hlacks, price_error]

theorem DateFault.dataSource {column : Nat} (h : DateFault record column e) :
    ∃ reason, e = .dataSource reason := by
  cases h with
  | missing h => exact ⟨_, h.2⟩
  | invalid => exact ⟨_, rfl⟩

theorem PriceFault.dataSource {column : Nat} (h : PriceFault record name column e) :
    ∃ reason, e = .dataSource reason := by
  cases h with
  | missing h => exact ⟨_, h.2⟩
  | invalid => exact ⟨_, rfl⟩

theorem PriceOrFault.dataSource {column : Option Nat} (h : PriceOrFault record name column e) :
    ∃ reason, e = .dataSource reason := by
  obtain ⟨-, i, -, hfault⟩ := h
  exact hfault.dataSource

end Fields

/-! ### Rows -/

/-- A record with as many fields as there are headers gives a row if its date and its prices can
be read. -/
structure IsRow (width : Nat) (c : Columns) (record : List String) (b : Bar Binary64) : Prop where
  length : record.length = width
  date : IsDate record c.date b.date
  opening : IsPrice record c.opening b.opening
  close : IsPrice record c.close b.close
  high : IsPriceOr record c.high (Arith.larger b.opening b.close) b.high
  low : IsPriceOr record c.low (Arith.smaller b.opening b.close) b.low
  adjusted : IsPriceOr record c.adjusted b.close b.adjusted

/-- What can be at fault with the fields of a record, in the order in which they are read. -/
def fieldFaults (c : Columns) (record : List String) : List (Failure → Prop) :=
  [DateFault record c.date, PriceFault record "open" c.opening, PriceFault record "close" c.close,
    PriceOrFault record "high" c.high, PriceOrFault record "low" c.low,
    PriceOrFault record "adj_close" c.adjusted]

/-- What is at fault with a record: how many fields it has, or else the first of its fields that
cannot be read. -/
inductive RowFault (width : Nat) (c : Columns) (record : List String) : Failure → Prop
  | length : record.length ≠ width → RowFault width c record (.dataSource "CSV parse error")
  | field {e : Failure} : record.length = width → FirstOf (fieldFaults c record) e →
      RowFault width c record e

section Rows
variable {width : Nat} {c : Columns} {record : List String} {e : Failure}

theorem bar_ok {b : Bar Binary64} :
    bar width c record = .ok b ↔ IsRow width c record b := by
  constructor
  · intro h
    unfold bar at h
    split at h
    · cases h
    · next hlength =>
        obtain ⟨date, hdate, h⟩ := bind_ok.1 h
        obtain ⟨opening, hopening, h⟩ := bind_ok.1 h
        obtain ⟨close, hclose, h⟩ := bind_ok.1 h
        obtain ⟨high, hhigh, h⟩ := bind_ok.1 h
        obtain ⟨low, hlow, h⟩ := bind_ok.1 h
        obtain ⟨adjusted, hadjusted, h⟩ := bind_ok.1 h
        obtain rfl := Except.ok.inj h
        exact ⟨not_not.1 hlength, date_ok.1 hdate, price_ok.1 hopening, price_ok.1 hclose,
          priceOr_ok.1 hhigh, priceOr_ok.1 hlow, priceOr_ok.1 hadjusted⟩
  · intro h
    rw [bar, if_neg (not_not.2 h.length), date_ok.2 h.date]
    refine bind_ok.2 ⟨_, rfl, bind_ok.2 ⟨_, price_ok.2 h.opening, ?_⟩⟩
    refine bind_ok.2 ⟨_, price_ok.2 h.close, bind_ok.2 ⟨_, priceOr_ok.2 h.high, ?_⟩⟩
    exact bind_ok.2 ⟨_, priceOr_ok.2 h.low, bind_ok.2 ⟨_, priceOr_ok.2 h.adjusted, rfl⟩⟩

theorem bar_error : bar width c record = .error e ↔ RowFault width c record e := by
  by_cases hlength : record.length = width
  · have hfields : bar width c record = .error e ↔ FirstOf (fieldFaults c record) e := by
      rw [bar, if_neg (not_not.2 hlength)]
      exact firstOf_bind date_error fun date => firstOf_bind price_error fun opening =>
        firstOf_bind price_error fun close => firstOf_bind priceOr_error fun high =>
        firstOf_bind priceOr_error fun low => firstOf_bind priceOr_error fun adjusted =>
        firstOf_ok _
    rw [hfields]
    exact ⟨.field hlength, fun | .length hne => (hne hlength).elim | .field _ h => h⟩
  · rw [bar, if_pos hlength]
    exact ⟨fun h => Except.error.inj h ▸ .length hlength,
      fun | .length _ => rfl | .field heq _ => (hlength heq).elim⟩

theorem RowFault.dataSource (h : RowFault width c record e) : ∃ reason, e = .dataSource reason := by
  cases h with
  | length => exact ⟨_, rfl⟩
  | field _ hfirst =>
      obtain ⟨fault, hmem, he⟩ := hfirst.exists_mem
      simp only [fieldFaults, List.mem_cons, List.not_mem_nil, or_false] at hmem
      rcases hmem with rfl | rfl | rfl | rfl | rfl | rfl
      · exact DateFault.dataSource he
      · exact PriceFault.dataSource he
      · exact PriceFault.dataSource he
      · exact PriceOrFault.dataSource he
      · exact PriceOrFault.dataSource he
      · exact PriceOrFault.dataSource he

end Rows

/-! ### Texts -/

/-- The rows of a text, one for each record under the headers and in the order of the records. -/
inductive Holds (text : String) : List (Bar Binary64) → Prop
  | rows {headers : List String} {records : List (List String)} {c : Columns}
      {rows : List (Bar Binary64)} : Csv.records text = headers :: records →
      HasColumns headers c → List.Forall₂ (IsRow headers.length c) records rows → Holds text rows

/-- What is at fault with a text: a column that it lacks, or the first record that gives no
row. -/
inductive Faults (path text : String) : Failure → Prop
  | column {e : Failure} :
      FirstOf (["date", "open", "close"].map
        (ColumnFault path ((Csv.records text).head?.getD []))) e → Faults path text e
  | record {headers record : List String} {before after : List (List String)} {c : Columns}
      {e : Failure} : Csv.records text = headers :: (before ++ record :: after) →
      HasColumns headers c → (∀ r ∈ before, ∃ b, IsRow headers.length c r b) →
      RowFault headers.length c record e → Faults path text e

section Texts
variable {path text : String}

/-- Without headers there is no column. -/
theorem not_hasColumns_nil (c : Columns) : ¬HasColumns [] c := by
  intro h
  obtain ⟨hplace, -⟩ := h.date
  cases hplace

theorem bars_ok {bs : List (Bar Binary64)} :
    bars path text = .ok bs ↔ ∃ rows, Holds text rows ∧ sort rows = bs := by
  unfold bars
  cases hrecords : Csv.records text with
  | nil =>
      constructor
      · intro h
        obtain ⟨c, hc, -⟩ := bind_ok.1 h
        exact (not_hasColumns_nil c (columns_ok.1 hc)).elim
      · rintro ⟨rows, ⟨hsplit, -, -⟩, -⟩
        cases hrecords.symm.trans hsplit
  | cons headers records =>
      constructor
      · intro h
        obtain ⟨c, hc, h⟩ := bind_ok.1 h
        obtain ⟨rows, hrows, h⟩ := bind_ok.1 h
        have hforall := (mapM_ok.1 hrows).imp fun _ _ => bar_ok.1
        exact ⟨rows, .rows hrecords (columns_ok.1 hc) hforall, Except.ok.inj h⟩
      · rintro ⟨rows, ⟨hsplit, hc, hforall⟩, rfl⟩
        obtain ⟨rfl, rfl⟩ := List.cons.inj (hrecords.symm.trans hsplit)
        have hrows := mapM_ok.2 (hforall.imp fun _ _ => bar_ok.2)
        exact bind_ok.2 ⟨_, columns_ok.2 hc, bind_ok.2 ⟨rows, hrows, rfl⟩⟩

theorem bars_error {e : Failure} : bars path text = .error e ↔ Faults path text e := by
  have hreads (width : Nat) (c : Columns) (record : List String) :
      Succeeds (bar width c record) ↔ ∃ b, IsRow width c record b :=
    exists_congr fun _ => bar_ok
  constructor
  · intro h
    rcases bind_error.1 h with h | ⟨c, hc, h⟩
    · exact .column (columns_error.1 h)
    rcases bind_error.1 h with h | ⟨rows, -, h⟩
    · obtain ⟨before, record, after, hsplit, hbefore, he⟩ := mapM_error.1 h
      cases hrecords : Csv.records text with
      | nil =>
          rw [hrecords] at hc
          exact (not_hasColumns_nil c (columns_ok.1 hc)).elim
      | cons headers records =>
          rw [hrecords] at hc hsplit hbefore he
          obtain rfl : records = before ++ record :: after := hsplit
          have hrows := fun r hr => (hreads _ c r).1 (hbefore r hr)
          exact .record hrecords (columns_ok.1 hc) hrows (bar_error.1 he)
    · cases h
  · intro h
    cases h with
    | column hfirst => exact bind_error.2 (.inl (columns_error.2 hfirst))
    | @record headers record before after c _ hsplit hc hbefore hfault =>
        have hrows : (before ++ record :: after).mapM (bar headers.length c) = .error e :=
          mapM_error.2 ⟨before, record, after, rfl, fun r hr => (hreads _ c r).2 (hbefore r hr),
            bar_error.2 hfault⟩
        rw [bars, hsplit]
        exact bind_error.2 (.inr ⟨c, columns_ok.2 hc, bind_error.2 (.inl hrows)⟩)

theorem Faults.dataSource {e : Failure} (h : Faults path text e) :
    ∃ reason, e = .dataSource reason := by
  cases h with
  | column hfirst =>
      obtain ⟨fault, hmem, he⟩ := hfirst.exists_mem
      obtain ⟨name, -, rfl⟩ := List.mem_map.1 hmem
      exact ⟨_, he.2⟩
  | record _ _ _ hfault => exact hfault.dataSource

end Texts
end StrategyTree.PriceFile
