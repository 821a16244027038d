import Mathlib.Data.List.Find
import Mathlib.Order.Bounds.Basic
import Barscript.Proofs.Market.Table

/-!
# What loading a table answers

A table is loaded as a whole or not at all. A price column that is missing is named before any row
is looked at, and else the first row with a cell that cannot be read; what is loaded has one bar for
each row (`barsOfFile_outcome`). Columns are looked up by their names, so with names that differ
their order says nothing.
-/

namespace Barscript.Market

open Barscript.Text

/-! ## Cells by the names of their columns -/

/-- The cell of a row in the first column of a name. -/
def cellOf? (names row : List (List Char)) (name : String) : Option (List Char) :=
  ((names.zip row).find? fun column => HasName column.1 name).map Prod.snd

/-- The cell of a row that says its time. -/
def timeCell? (names row : List (List Char)) : Option (List Char) :=
  timeNames.findSome? (cellOf? names row)

/-- The first of the required names that no column has. -/
def firstMissing? (names : List (List Char)) : Option String :=
  requiredNames.find? fun name => ∀ cell ∈ names, ¬ HasName cell name

/-- What is wrong with a cell of a row. -/
inductive IsFault (names row : List (List Char)) : Defect → Prop where
  | price {name : String} {cell : List Char} (hname : name ∈ requiredNames)
      (hcell : cellOf? names row name = some cell) (h : Decimal.read? cell = none) :
      IsFault names row (.price name (String.ofList cell))
  | time {cell : List Char} (hcell : timeCell? names row = some cell)
      (h : Moment.read? cell = none) : IsFault names row (.time (String.ofList cell))

/-- A row of a sheet has a cell that cannot be read. -/
def FaultyAt (s : Sheet) (r : ℕ) : Prop :=
  ∃ row defect, s.rows[r]? = some row ∧ IsFault s.names row defect

/-- The bar of the `r`-th row: its prices stand in the columns of their names, and so does its
time; where no column is for the time, it is `r` seconds after the epoch. -/
structure IsBarOf (names row : List (List Char)) (r : ℕ) (b : Bar) : Prop where
  prices : ∀ name ∈ requiredNames,
    (cellOf? names row name).bind Decimal.read? = (priceOf? name).map fun price => price b
  time : ∀ cell, timeCell? names row = some cell → Moment.read? cell = some b.time
  count : (∀ name ∈ timeNames, ∀ cell ∈ names, ¬ HasName cell name) → b.time = .ofSeconds r

section

variable {names row : List (List Char)} {name : String} {r : ℕ} {b : Bar} {defect : Defect}

theorem findColumn?_eq_none_iff :
    findColumn? names name = none ↔ ∀ cell ∈ names, ¬ HasName cell name := by
  simp [findColumn?, List.findIdx?_eq_none_iff, HasName]

/-- The cell of a name stands in the column of the name. -/
theorem cellOf?_eq (hwidth : row.length = names.length) (name : String) :
    cellOf? names row name = (findColumn? names name).map (cellAt row) := by
  unfold cellOf? findColumn?
  induction names generalizing row with
  | nil => rfl
  | cons column names ih =>
      obtain ⟨cell, row, rfl⟩ := List.exists_cons_of_length_eq_add_one hwidth
      rw [List.zip_cons_cons, List.find?_cons, List.findIdx?_cons]
      by_cases h : HasName column name
      · have hfound : (column.map Char.toLower == name.toList) = true := beq_iff_eq.mpr h
        simp [h, hfound, cellAt]
      · have hpassed : (column.map Char.toLower == name.toList) = false := beq_eq_false_iff_ne.mpr h
        rw [decide_eq_false h, hpassed]
        simp only [Bool.false_eq_true, if_false, Option.map_map]
        exact ih (Nat.succ.inj hwidth)

theorem timeCell?_eq (hwidth : row.length = names.length) :
    timeCell? names row = (timeNames.findSome? (findColumn? names)).map (cellAt row) := by
  unfold timeCell?
  rw [List.map_findSome?]
  congr
  funext name
  exact cellOf?_eq hwidth name

/-- A row that is a bar has no cell that cannot be read. -/
theorem IsBarOf.not_isFault (h : IsBarOf names row r b) : ¬ IsFault names row defect := by
  rintro (⟨hname, hcell, hread⟩ | ⟨hcell, hread⟩)
  · have hprice := h.prices _ hname
    rw [hcell, Option.bind_some, hread] at hprice
    have hnone := Option.map_eq_none_iff.mp hprice.symm
    simp only [requiredNames, List.mem_cons, List.not_mem_nil, or_false] at hname
    rcases hname with rfl | rfl | rfl | rfl | rfl <;> cases hnone
  · rw [h.time _ hcell] at hread
    cases hread

end

/-! ## Layouts -/

/-- A layout that has the columns of some names. -/
structure Layout.Fits (layout : Layout) (names : List (List Char)) : Prop where
  openPrice : findColumn? names "open" = some layout.openPrice
  high : findColumn? names "high" = some layout.high
  low : findColumn? names "low" = some layout.low
  close : findColumn? names "close" = some layout.close
  volume : findColumn? names "volume" = some layout.volume
  time : timeNames.findSome? (findColumn? names) = layout.time

section

variable {names : List (List Char)} {name : String}

theorem firstMissing?_eq (names : List (List Char)) :
    firstMissing? names = requiredNames.find? fun name => (findColumn? names name).isNone := by
  unfold firstMissing?
  congr
  funext name
  rw [Bool.eq_iff_iff, decide_eq_true_eq, Option.isNone_iff_eq_none, findColumn?_eq_none_iff]

/-- The columns of some names are found, or the first that is missing is named. -/
theorem ofNames_cases (names : List (List Char)) :
    (∃ name, firstMissing? names = some name ∧
      Layout.ofNames names = .error (.missingColumn name)) ∨
    (firstMissing? names = none ∧
      ∃ layout, Layout.ofNames names = .ok layout ∧ layout.Fits names) := by
  rw [firstMissing?_eq]
  unfold requiredNames Layout.ofNames priceColumn
  cases hopen : findColumn? names "open" with
  | none => exact .inl ⟨"open", by simp [hopen], rfl⟩
  | some openPrice =>
  cases hhigh : findColumn? names "high" with
  | none => exact .inl ⟨"high", by simp [hopen, hhigh], rfl⟩
  | some high =>
  cases hlow : findColumn? names "low" with
  | none => exact .inl ⟨"low", by simp [hopen, hhigh, hlow], rfl⟩
  | some low =>
  cases hclose : findColumn? names "close" with
  | none => exact .inl ⟨"close", by simp [hopen, hhigh, hlow, hclose], rfl⟩
  | some close =>
  cases hvolume : findColumn? names "volume" with
  | none => exact .inl ⟨"volume", by simp [hopen, hhigh, hlow, hclose, hvolume], rfl⟩
  | some volume =>
      refine .inr ⟨by simp [hopen, hhigh, hlow, hclose, hvolume], _, rfl, ?_⟩
      exact ⟨hopen, hhigh, hlow, hclose, hvolume, rfl⟩

end

/-! ## Rows -/

/-- A reading fails with a defect of one kind or gives a value of another. -/
def Settles {α : Type} (reading : Except Defect α) (fault : Defect → Prop) (good : α → Prop) :
    Prop :=
  match reading with
  | .ok value => good value
  | .error defect => fault defect

theorem Settles.bind {α β : Type} {reading : Except Defect α} {next : α → Except Defect β}
    {fault : Defect → Prop} {good : α → Prop} {best : β → Prop} (h : Settles reading fault good)
    (hnext : ∀ value, good value → Settles (next value) fault best) :
    Settles (reading >>= next) fault best := by
  cases reading with
  | ok value => exact hnext value h
  | error defect => exact h

theorem settles_elim {α : Type} {value : Option α} {defect : Defect} {fault : Defect → Prop}
    {good : α → Prop} (hnone : value = none → fault defect)
    (hsome : ∀ x, value = some x → good x) :
    Settles (value.elim (.error defect) .ok) fault good := by
  cases value with
  | none => exact hnone rfl
  | some x => exact hsome x rfl

section

variable {names row : List (List Char)} {name : String} {layout : Layout} {r : ℕ}

theorem settles_readPrice {index : ℕ} (hwidth : row.length = names.length)
    (hname : name ∈ requiredNames) (h : findColumn? names name = some index) :
    Settles (readPrice row name index) (IsFault names row)
      fun price => (cellOf? names row name).bind Decimal.read? = some price := by
  have hcell : cellOf? names row name = some (cellAt row index) := by
    rw [cellOf?_eq hwidth, h, Option.map_some]
  rw [hcell]
  exact settles_elim (fun hread => .price hname hcell hread) fun _ hread => hread

/-- A row without a cell for its time is dated by its number. -/
theorem settles_readTime (hwidth : row.length = names.length)
    (h : timeNames.findSome? (findColumn? names) = layout.time) :
    Settles (readTime row r layout.time) (IsFault names row) fun time =>
      (∀ cell, timeCell? names row = some cell → Moment.read? cell = some time) ∧
        ((∀ name ∈ timeNames, ∀ cell ∈ names, ¬ HasName cell name) → time = .ofSeconds r) := by
  have hcells := timeCell?_eq hwidth
  rw [h] at hcells
  cases htime : layout.time with
  | none =>
      rw [htime] at hcells
      refine ⟨fun cell hcell => ?_, fun _ => rfl⟩
      rw [hcells] at hcell
      cases hcell
  | some index =>
      rw [htime] at h hcells
      have hcolumn : ¬ ∀ name ∈ timeNames, ∀ cell ∈ names, ¬ HasName cell name := by
        intro hnone
        have habsent : timeNames.findSome? (findColumn? names) = none :=
          List.findSome?_eq_none_iff.mpr fun name hname =>
            findColumn?_eq_none_iff.mpr (hnone name hname)
        rw [h] at habsent
        cases habsent
      refine settles_elim (fun hread => .time hcells hread) fun time hread => ⟨?_, ?_⟩
      · intro cell hcell
        rw [hcells] at hcell
        obtain rfl := Option.some.inj hcell
        exact hread
      · intro hnone
        exact absurd hnone hcolumn

/-- A row is read as its bar, or one of its cells is blamed. -/
theorem settles_readBar (hfits : layout.Fits names) (hwidth : row.length = names.length) (r : ℕ) :
    Settles (layout.readBar r row) (IsFault names row) (IsBarOf names row r) := by
  unfold Layout.readBar
  refine (settles_readPrice hwidth (by decide) hfits.openPrice).bind fun openPrice hopen => ?_
  refine (settles_readPrice hwidth (by decide) hfits.high).bind fun high hhigh => ?_
  refine (settles_readPrice hwidth (by decide) hfits.low).bind fun low hlow => ?_
  refine (settles_readPrice hwidth (by decide) hfits.close).bind fun close hclose => ?_
  refine (settles_readPrice hwidth (by decide) hfits.volume).bind fun volume hvolume => ?_
  refine (settles_readTime hwidth hfits.time).bind fun time htime => ⟨?_, htime.1, htime.2⟩
  intro name hname
  simp only [requiredNames, List.mem_cons, List.not_mem_nil, or_false] at hname
  rcases hname with rfl | rfl | rfl | rfl | rfl
  · exact hopen
  · exact hhigh
  · exact hlow
  · exact hclose
  · exact hvolume

end

/-! ## Sheets -/

section

variable {α β ε : Type}

/-- A traversal gives a value for each element, or stops at the first that fails. -/
theorem mapM_zipIdx_cases (f : α × ℕ → Except ε β) (xs : List α) (start : ℕ) :
    (∃ ys, (xs.zipIdx start).mapM f = .ok ys ∧
      List.Forall₂ (fun x y => f x = .ok y) (xs.zipIdx start) ys) ∨
    (∃ n x e, xs[n]? = some x ∧ f (x, start + n) = .error e ∧
      (∀ m < n, ∀ x, xs[m]? = some x → ∃ y, f (x, start + m) = .ok y) ∧
      (xs.zipIdx start).mapM f = .error e) := by
  induction xs generalizing start with
  | nil => exact .inl ⟨[], rfl, .nil⟩
  | cons x xs ih =>
      rw [List.zipIdx_cons, List.mapM_cons]
      cases hx : f (x, start) with
      | error e => exact .inr ⟨0, x, e, rfl, hx, nofun, rfl⟩
      | ok y =>
          rcases ih (start + 1) with ⟨ys, hys, hall⟩ | ⟨n, z, e, hz, hfail, hearlier, hxs⟩
          · exact .inl ⟨y :: ys, by rw [hys]; rfl, .cons hx hall⟩
          · refine .inr ⟨n + 1, z, e, hz, ?_, ?_, by rw [hxs]; rfl⟩
            · rwa [Nat.add_right_comm] at hfail
            · intro m hm w hw
              cases m with
              | zero =>
                  obtain rfl : x = w := Option.some.inj hw
                  exact ⟨y, hx⟩
              | succ m =>
                  obtain ⟨v, hv⟩ := hearlier m (Nat.lt_of_succ_lt_succ hm) w hw
                  exact ⟨v, by rwa [Nat.add_right_comm] at hv⟩

theorem exists_of_forall₂ {R : α → β → Prop} {xs : List α} {ys : List β} {x : α}
    (h : List.Forall₂ R xs ys) (hx : x ∈ xs) : ∃ y, R x y := by
  induction h with
  | nil => exact absurd hx List.not_mem_nil
  | cons hxy _ ih =>
      rcases List.mem_cons.mp hx with rfl | hx
      · exact ⟨_, hxy⟩
      · exact ih hx

end

section

variable {s : Sheet} {layout : Layout} {row : List (List Char)} {r : ℕ} {b : Bar}

theorem isBarOf_of_readBar (hfits : layout.Fits s.names) (hwidth : row.length = s.names.length)
    (h : (layout.readBar r row).mapError (TableError.row r) = .ok b) :
    IsBarOf s.names row r b := by
  have hsettles := settles_readBar hfits hwidth r
  cases hread : layout.readBar r row with
  | error defect =>
      rw [hread] at h
      cases h
  | ok bar =>
      rw [hread] at h hsettles
      obtain rfl : bar = b := Except.ok.inj h
      exact hsettles

theorem isFault_of_readBar {e : TableError} (hfits : layout.Fits s.names)
    (hwidth : row.length = s.names.length)
    (h : (layout.readBar r row).mapError (TableError.row r) = .error e) :
    ∃ defect, e = .row r defect ∧ IsFault s.names row defect := by
  have hsettles := settles_readBar hfits hwidth r
  cases hread : layout.readBar r row with
  | error defect =>
      rw [hread] at h hsettles
      exact ⟨defect, (Except.error.inj h).symm, hsettles⟩
  | ok bar =>
      rw [hread] at h
      cases h

/-- Without a required column the rows are not looked at. -/
theorem bars_of_missing {name : String} (h : firstMissing? s.names = some name) :
    s.bars = .error (.missingColumn name) := by
  unfold Sheet.bars
  rcases ofNames_cases s.names with ⟨other, hother, hfail⟩ | ⟨hnone, -⟩
  · rw [hfail, Option.some.inj (h.symm.trans hother)]
    rfl
  · rw [h] at hnone
    cases hnone

theorem bars_of_complete (h : firstMissing? s.names = none) :
    ∃ layout : Layout, layout.Fits s.names ∧ s.bars = s.rows.zipIdx.mapM fun (row, r) =>
      (layout.readBar r row).mapError (.row r) := by
  unfold Sheet.bars
  rcases ofNames_cases s.names with ⟨name, hname, -⟩ | ⟨-, layout, hlayout, hfits⟩
  · rw [h] at hname
    cases hname
  · exact ⟨layout, hfits, by rw [hlayout]; rfl⟩

/-- The rows of a sheet are all read as bars, or the first that has a fault is blamed. -/
theorem bars_cases (hs : s.Rectangular) (h : firstMissing? s.names = none) :
    (∃ bars, s.bars = .ok bars ∧
      List.Forall₂ (fun row bar => IsBarOf s.names row.1 row.2 bar) s.rows.zipIdx bars) ∨
    (∃ r row defect, IsLeast {r | FaultyAt s r} r ∧ s.rows[r]? = some row ∧
      IsFault s.names row defect ∧ s.bars = .error (.row r defect)) := by
  obtain ⟨layout, hfits, hread⟩ := bars_of_complete h
  rw [hread]
  have hwidth : ∀ row ∈ s.rows.zipIdx, row.1.length = s.names.length :=
    fun row hrow => hs row.1 (List.mem_of_getElem? (List.mem_zipIdx_iff_getElem?.mp hrow))
  rcases mapM_zipIdx_cases (fun (row, r) => (layout.readBar r row).mapError (TableError.row r))
    s.rows 0 with ⟨bars, hbars, hall⟩ | ⟨r, row, e, hrow, hfail, hearlier, he⟩
  · refine .inl ⟨bars, hbars, ((List.forall₂_and_left _ _).mpr ⟨hwidth, hall⟩).imp ?_⟩
    rintro ⟨row, r⟩ bar ⟨hrow, hread⟩
    exact isBarOf_of_readBar hfits hrow hread
  · rw [Nat.zero_add] at hfail
    obtain ⟨defect, rfl, hfault⟩ :=
      isFault_of_readBar hfits (hs row (List.mem_of_getElem? hrow)) hfail
    refine .inr ⟨r, row, defect, ⟨⟨row, defect, hrow, hfault⟩, ?_⟩, hrow, hfault, he⟩
    -- An earlier row was read, so it is a bar and has no fault.
    rintro m ⟨other, _, hother, hwrong⟩
    by_contra hlt
    obtain ⟨bar, hbar⟩ := hearlier m (Nat.lt_of_not_le hlt) other hother
    rw [Nat.zero_add] at hbar
    have hgood := isBarOf_of_readBar hfits (hs other (List.mem_of_getElem? hother)) hbar
    exact hgood.not_isFault hwrong

end

/-! ## Columns in another order -/

/-- A sheet with its columns in another order, that of their numbers in a list. -/
def Sheet.rearranged (s : Sheet) (order : List ℕ) : Sheet :=
  ⟨order.map (cellAt s.names), s.rows.map fun row => order.map (cellAt row)⟩

/-- The names of a sheet differ in more than the case of their letters. -/
def Sheet.Distinct (s : Sheet) : Prop :=
  (s.names.map fun name => name.map Char.toLower).Nodup

instance (s : Sheet) : Decidable s.Distinct :=
  inferInstanceAs (Decidable (List.Nodup _))

section

variable {names row : List (List Char)} {order : List ℕ} {name : String}

theorem map_cellAt_range (cells : List (List Char)) :
    (List.range cells.length).map (cellAt cells) = cells := by
  apply List.ext_getElem?
  intro i
  by_cases h : i < cells.length
  · simp [cellAt, h]
  · simp [h]

theorem perm_map_cellAt (horder : order.Perm (List.range names.length)) :
    (order.map (cellAt names)).Perm names := by
  have h := horder.map (cellAt names)
  rwa [map_cellAt_range] at h

/-- Columns and their cells move together. -/
theorem perm_zip_cellAt (horder : order.Perm (List.range names.length))
    (hwidth : row.length = names.length) :
    ((order.map (cellAt names)).zip (order.map (cellAt row))).Perm (names.zip row) := by
  have h := horder.map fun i => (cellAt names i, cellAt row i)
  rw [← List.zip_map', ← List.zip_map', map_cellAt_range, ← hwidth, map_cellAt_range] at h
  exact h

/-- A name has its cell wherever its column is. -/
theorem cellOf?_rearranged (hnames : (names.map fun name => name.map Char.toLower).Nodup)
    (horder : order.Perm (List.range names.length)) (hwidth : row.length = names.length)
    (name : String) :
    cellOf? (order.map (cellAt names)) (order.map (cellAt row)) name = cellOf? names row name := by
  unfold cellOf?
  rw [eq_comm, List.find?_eq_find?_of_perm (perm_zip_cellAt horder hwidth).symm]
  have hkeys : ((names.zip row).map fun column => column.1.map Char.toLower).Nodup := by
    have hfirst : (names.zip row).map Prod.fst = names := List.map_fst_zip hwidth.ge
    rw [← hfirst, List.map_map] at hnames
    exact hnames
  rintro ⟨x, cell⟩ ⟨hx, hxname⟩ ⟨y, other⟩ ⟨hy, hyname⟩
  apply List.inj_on_of_nodup_map hkeys hx hy
  exact (of_decide_eq_true hxname).trans (of_decide_eq_true hyname).symm

theorem firstMissing?_rearranged (horder : order.Perm (List.range names.length)) :
    firstMissing? (order.map (cellAt names)) = firstMissing? names := by
  unfold firstMissing?
  congr
  funext name
  simp only [(perm_map_cellAt horder).mem_iff]

end

section

variable {names names' row row' : List (List Char)} {layout layout' : Layout} {r : ℕ}

/-- Where an entry is the same, the columns that two layouts have for it hold the same. -/
theorem readPrice_congr {name : String} {index index' : ℕ} (hwidth : row.length = names.length)
    (hwidth' : row'.length = names'.length) (h : findColumn? names name = some index)
    (h' : findColumn? names' name = some index')
    (hcells : cellOf? names' row' name = cellOf? names row name) :
    readPrice row' name index' = readPrice row name index := by
  rw [cellOf?_eq hwidth, cellOf?_eq hwidth', h, h'] at hcells
  have hcell : cellAt row' index' = cellAt row index := Option.some.inj hcells
  unfold readPrice
  rw [hcell]

theorem readTime_congr {time time' : Option ℕ}
    (h : time'.map (cellAt row') = time.map (cellAt row)) :
    readTime row' r time' = readTime row r time := by
  cases time' with
  | none =>
      obtain rfl := Option.map_eq_none_iff.mp h.symm
      rfl
  | some index' =>
      obtain ⟨index, rfl, hcell⟩ := Option.map_eq_some_iff.mp h.symm
      unfold readTime
      dsimp only
      rw [hcell]

/-- The bar of a row depends on its entries only. -/
theorem readBar_congr (hfits : layout.Fits names) (hfits' : layout'.Fits names')
    (hwidth : row.length = names.length) (hwidth' : row'.length = names'.length)
    (hcells : ∀ name, cellOf? names' row' name = cellOf? names row name) :
    layout'.readBar r row' = layout.readBar r row := by
  have htime : timeCell? names' row' = timeCell? names row := by
    unfold timeCell?
    rw [funext hcells]
  rw [timeCell?_eq hwidth, timeCell?_eq hwidth', hfits.time, hfits'.time] at htime
  unfold Layout.readBar
  rw [readPrice_congr hwidth hwidth' hfits.openPrice hfits'.openPrice (hcells _),
    readPrice_congr hwidth hwidth' hfits.high hfits'.high (hcells _),
    readPrice_congr hwidth hwidth' hfits.low hfits'.low (hcells _),
    readPrice_congr hwidth hwidth' hfits.close hfits'.close (hcells _),
    readPrice_congr hwidth hwidth' hfits.volume hfits'.volume (hcells _), readTime_congr htime]

end

section

variable {s : Sheet} {order : List ℕ}

theorem Sheet.Rectangular.rearranged (s : Sheet) (order : List ℕ) :
    (s.rearranged order).Rectangular := by
  intro row hrow
  obtain ⟨_, -, rfl⟩ := List.mem_map.mp hrow
  show (order.map _).length = (order.map _).length
  rw [List.length_map, List.length_map]

/-- **The order of columns says nothing** when their names differ. -/
theorem bars_rearranged (hs : s.Rectangular) (hnames : s.Distinct)
    (horder : order.Perm (List.range s.names.length)) : (s.rearranged order).bars = s.bars := by
  have hmissing : firstMissing? (s.rearranged order).names = firstMissing? s.names :=
    firstMissing?_rearranged horder
  cases h : firstMissing? s.names with
  | some name => rw [bars_of_missing h, bars_of_missing (hmissing.trans h)]
  | none =>
      obtain ⟨layout, hfits, hbars⟩ := bars_of_complete h
      obtain ⟨layout', hfits', hbars'⟩ := bars_of_complete (hmissing.trans h)
      have hrows : List.Forall₂
          (fun row moved => row.length = s.names.length ∧ moved = order.map (cellAt row))
          s.rows (s.rearranged order).rows :=
        (List.forall₂_and_left _ _).mpr ⟨hs, List.forall₂_map_right_iff.mpr
          (List.forall₂_same.mpr fun _ _ => rfl)⟩
      rw [hbars, hbars']
      refine (mapM_zipIdx_congr ?_ hrows 0).symm
      rintro row _ r ⟨hwidth, rfl⟩
      dsimp only
      rw [readBar_congr hfits hfits' hwidth (by simp [Sheet.rearranged])
        (cellOf?_rearranged hnames horder hwidth)]

/-! ## Files -/

/-- **What loading a table answers.** Of a table whose cells are texts and whose rows have a cell
for each name, the first required name that is missing is told, whatever the rows hold; if none is
missing, the first row with a cell that cannot be read is blamed; if there is no such row, each has
its bar. Where the names of the columns differ, their order says nothing. -/
theorem barsOfFile_outcome {content : ByteArray} (htext : Sheet.ofFile? content = some s)
    (hwidth : s.Rectangular) :
    (∀ name, firstMissing? s.names = some name →
      barsOfFile content = .error (.missingColumn name)) ∧
    (firstMissing? s.names = none → (∃ r, FaultyAt s r) →
      ∃ r row defect, IsLeast {r | FaultyAt s r} r ∧ s.rows[r]? = some row ∧
        IsFault s.names row defect ∧ barsOfFile content = .error (.row r defect)) ∧
    (firstMissing? s.names = none → (¬ ∃ r, FaultyAt s r) →
      ∃ bars, barsOfFile content = .ok bars ∧
        List.Forall₂ (fun row bar => IsBarOf s.names row.1 row.2 bar) s.rows.zipIdx bars) ∧
    (s.Distinct → ∀ order content', order.Perm (List.range s.names.length) →
      Sheet.ofFile? content' = some (s.rearranged order) →
        barsOfFile content' = barsOfFile content) := by
  rw [barsOfFile_eq_bars htext hwidth]
  refine ⟨fun name hmissing => bars_of_missing hmissing, ?_, ?_, ?_⟩
  · rintro hcomplete ⟨r, row, defect, hrow, hfault⟩
    rcases bars_cases hwidth hcomplete with ⟨bars, -, hall⟩ | hblamed
    · have hmem : (row, r) ∈ s.rows.zipIdx := List.mem_zipIdx_iff_getElem?.mpr hrow
      obtain ⟨bar, hbar⟩ := exists_of_forall₂ hall hmem
      exact absurd hfault hbar.not_isFault
    · exact hblamed
  · intro hcomplete hsound
    rcases bars_cases hwidth hcomplete with hbars | ⟨r, -, -, hleast, -⟩
    · exact hbars
    · exact absurd ⟨r, hleast.1⟩ hsound
  · intro hnames order content' horder htext'
    rw [barsOfFile_eq_bars htext' (.rearranged s order), bars_rearranged hwidth hnames horder]

end

section

variable {names : List (List Char)} {rows : List (List (List Char))} {text : List Char}

/-- A table that is written out has its cells without blanks as its sheet, unless its first name
starts with the mark that a reader skips. -/
theorem ofFile?_table (htext : SpellsTable (names :: rows) text) (hwide : 2 ≤ names.length)
    (hmark : ∀ cell ∈ names.head?, withoutStartMark cell = cell)
    (hrows : ∀ row ∈ rows, row.length = names.length) :
    Sheet.ofFile? (String.ofList text).toUTF8 =
      some ⟨names.map trim, rows.map fun row => row.map trim⟩ := by
  obtain ⟨first, rest, rfl⟩ := List.exists_cons_of_length_pos (Nat.lt_of_lt_of_le two_pos hwide)
  obtain ⟨seen, hseen, hshown⟩ := spellsTable_withoutStartMark htext
  obtain rfl : seen = first := hseen.elim id fun h => h.trans (hmark _ rfl)
  have hcells := cells_records_table hshown (List.forall_mem_cons.mpr
    ⟨hwide, fun row hrow => hwide.trans_eq (hrows row hrow).symm⟩)
  obtain ⟨header, records, hrecords, hheader, hbehind⟩ := List.map_eq_cons_iff.mp hcells
  have hcellTexts : records.mapM (fun row => cellTexts? row.cells) =
      some ((records.map Record.cells).map fun row => row.map trim) := by
    rw [funext fun row : Record Char => cellTexts?_chars row.cells, List.map_map]
    exact List.mapM_pure
  unfold Sheet.ofFile? Sheet.read?
  rw [fromUTF8?_text]
  dsimp only
  rw [String.toList_ofList, hrecords]
  dsimp only
  rw [hheader, cellTexts?_chars, hcellTexts, hbehind]
  rfl

end

/-- The names of a table with blanks around some of them. -/
def faultyNames : List (List Char) :=
  [" Date", "Close", "open", "volume ", "low", "HIGH"].map String.toList

/-- Rows of which the second has a price and the third a volume and a time that cannot be read. -/
def faultyRows : List (List (List Char)) :=
  [["2024-03-01", "1.5", "1", "10", "0.5", "2"].map String.toList,
   ["2024-03-02", " x ", "1", "10", "0.5", "2"].map String.toList,
   ["someday", "1.5", "1", "ten", "0.5", "2"].map String.toList]

def faultySheet : Sheet :=
  ⟨faultyNames.map trim, faultyRows.map fun row => row.map trim⟩

/-- The columns of `faultyNames` with the prices in front. -/
def pricesFirst : List ℕ :=
  [2, 5, 4, 1, 3, 0]

def turnedSheet : Sheet :=
  faultySheet.rearranged pricesFirst

/-- The file of a table. -/
def written (names : List (List Char)) (rows : List (List (List Char))) : ByteArray :=
  (String.ofList (writeTable (names :: rows))).toUTF8

theorem barsOfFile_outcome_faulty :
    Sheet.ofFile? (written faultyNames faultyRows) = some faultySheet ∧
      faultySheet.Rectangular ∧
      (firstMissing? faultySheet.names = none ∧ FaultyAt faultySheet 1) ∧
      (faultySheet.Distinct ∧ pricesFirst.Perm (List.range faultySheet.names.length) ∧
        Sheet.ofFile? (written turnedSheet.names turnedSheet.rows) =
          some (faultySheet.rearranged pricesFirst)) ∧
      (∃ r row defect, IsLeast {r | FaultyAt faultySheet r} r ∧
        faultySheet.rows[r]? = some row ∧ IsFault faultySheet.names row defect ∧
        barsOfFile (written faultyNames faultyRows) = .error (.row r defect)) ∧
      barsOfFile (written turnedSheet.names turnedSheet.rows) =
        barsOfFile (written faultyNames faultyRows) := by
  have htext : Sheet.ofFile? (written faultyNames faultyRows) = some faultySheet :=
    ofFile?_table (spellsTable_writeTable (by decide)) (by decide) (by decide) (by decide)
  have hwidth : faultySheet.Rectangular := by decide
  have hcomplete : firstMissing? faultySheet.names = none := by decide
  have hfault : FaultyAt faultySheet 1 :=
    ⟨_, _, rfl, .price (by decide : "close" ∈ requiredNames) rfl (by decide +kernel)⟩
  have hdistinct : faultySheet.Distinct := by decide
  have horder : pricesFirst.Perm (List.range faultySheet.names.length) := by decide
  have hturned : Sheet.ofFile? (written turnedSheet.names turnedSheet.rows) =
      some (faultySheet.rearranged pricesFirst) :=
    (ofFile?_table (spellsTable_writeTable (by decide)) (by decide) (by decide)
      (by decide)).trans (by decide)
  obtain ⟨-, hblamed, -, hsame⟩ := barsOfFile_outcome htext hwidth
  exact ⟨htext, hwidth, ⟨hcomplete, hfault⟩, ⟨hdistinct, horder, hturned⟩,
    hblamed hcomplete ⟨1, hfault⟩, hsame hdistinct _ _ horder hturned⟩

/-- Names that differ in more than the case of their letters, and yet the order of their columns
shows in the bars. -/
def OrderShows (names row : List (List Char)) (order : List ℕ) : Prop :=
  (names.map fun name => name.map Char.toLower).Nodup ∧ row.length = names.length ∧
    order.Perm (List.range names.length) ∧
    barsOfFile (written (order.map (cellAt names)) [order.map (cellAt row)]) ≠
      barsOfFile (written names [row])

theorem ne_of_openPrices {content content' : ByteArray}
    (h : (barsOfFile content).toOption.map (List.map Bar.openPrice) ≠
      (barsOfFile content').toOption.map (List.map Bar.openPrice)) :
    barsOfFile content ≠ barsOfFile content' := by
  intro heq
  rw [heq] at h
  exact h rfl

/-- A header with two names that differ by a mark only. -/
def markedNames : List (List Char) :=
  ["open", "\uFEFFopen", "high", "low", "close", "volume"].map String.toList

def markedRow : List (List Char) :=
  ["1", "9", "2", "0.5", "1.5", "10"].map String.toList

/-- A reader strips blanks from names, and the mark at the start of a file. -/
theorem orderShows_blank_mark :
    OrderShows blankNames blankRow [1, 0, 2, 3, 4, 5, 6] ∧
      OrderShows markedNames markedRow [1, 0, 2, 3, 4, 5] := by
  constructor
  · exact ⟨by decide, rfl, by decide, ne_of_openPrices (by decide +kernel)⟩
  · exact ⟨by decide, rfl, by decide, ne_of_openPrices (by decide +kernel)⟩

end Barscript.Market
