import Mathlib.Data.List.Forall2
import Barscript.Market.Table
import Barscript.Proofs.Decimal.ReadBack
import Barscript.Proofs.Market.Moment
import Barscript.Proofs.Market.Sheet
import Barscript.Proofs.Text.Record

/-!
# A table of bars reads back

Bars are written as rows of a table whose columns come in any order and among any others,
and the bars are read back from it (`barsOfFile_table`). A reader strips blanks and the mark
at the start of a file, so a name may turn into one of those it looks for; of a header it is
asked that none does.
-/

namespace Barscript.Market

open Barscript.Text Barscript.Decimal

/-! ## Column names -/

/-- The names of the columns that a table has to have. -/
def requiredNames : List String :=
  ["open", "high", "low", "close", "volume"]

/-- The names that a reader of tables looks for. -/
def knownNames : List String :=
  requiredNames ++ timeNames

/-- A cell is a name in any case. -/
def HasName (cell : List Char) (name : String) : Prop :=
  cell.map Char.toLower = name.toList

/-- A cell is one of the names that a reader looks for. -/
def Known (cell : List Char) : Prop :=
  ∃ name ∈ knownNames, HasName cell name

instance (cell : List Char) (name : String) : Decidable (HasName cell name) :=
  inferInstanceAs (Decidable (_ = _))

instance (cell : List Char) : Decidable (Known cell) :=
  inferInstanceAs (Decidable (∃ name ∈ knownNames, HasName cell name))

/-- The first row of a table. It has the names of all prices and one for the time, and its
other names are not taken for any of these: neither without the blanks around them nor, at
the start of the file, without a mark in front. -/
structure IsHeader (names : List (List Char)) : Prop where
  prices : ∀ name ∈ requiredNames, ∃ cell ∈ names, HasName cell name
  time : ∃ name ∈ timeNames, ∃ cell ∈ names, HasName cell name
  blanks : ∀ cell ∈ names, Known (trim cell) → Known cell
  mark : ∀ cell ∈ names.head?, Known (trim (withoutStartMark cell)) → Known cell

section

variable {cell shown : List Char} {name : String}

theorem toLower_eq_self_or_upper (c : Char) :
    c.toLower = c ∨ 65 ≤ c.toNat ∧ c.toNat ≤ 90 := by
  unfold Char.toLower
  split
  · rename_i hupper
    exact .inr hupper
  · exact .inl rfl

/-- The characters of a name are no blanks and no mark. -/
theorem visible_of_known (h : Known cell) :
    ∀ c ∈ cell, isBlank c = false ∧ c ≠ startMark := by
  obtain ⟨name, hname, h⟩ := h
  have hletters : ∀ name ∈ knownNames,
      (name.toList.all fun c => 0x60 < c.toNat && c.toNat < 0x7F) = true := by
    decide
  intro c hc
  have hletter := List.all_eq_true.mp (hletters name hname) c.toLower
    (h ▸ List.mem_map_of_mem hc)
  rw [Bool.and_eq_true, decide_eq_true_eq, decide_eq_true_eq] at hletter
  have hrange : 0x20 < c.toNat ∧ c.toNat < 0x7F := by
    rcases toLower_eq_self_or_upper c with hsame | hupper
    · rw [hsame] at hletter
      omega
    · omega
  refine ⟨not_isBlank_of_visible hrange.1 hrange.2, ?_⟩
  rintro rfl
  exact absurd hrange.2 (by decide)

theorem trim_of_known (h : Known cell) : trim cell = cell :=
  trim_eq_self (fun c hc => (visible_of_known h c (List.mem_of_mem_head? hc)).1)
    fun c hc => (visible_of_known h c (List.mem_of_mem_getLast? hc)).1

theorem withoutStartMark_of_known (h : Known cell) : withoutStartMark cell = cell := by
  cases cell with
  | nil => rfl
  | cons c rest =>
      rw [withoutStartMark_cons, if_neg (visible_of_known h c (List.mem_cons_self ..)).2]

/-- A cell and what is seen of it have the same names. -/
theorem hasName_iff (hknown : Known shown → Known cell) (hsame : Known cell → shown = cell)
    (hname : name ∈ knownNames) : HasName shown name ↔ HasName cell name := by
  constructor
  · intro h
    rwa [hsame (hknown ⟨name, hname, h⟩)] at h
  · intro h
    rwa [hsame ⟨name, hname, h⟩]

end

/-! ## Finding columns -/

/-- Where a layout has the columns of a header. -/
structure Layout.Finds (layout : Layout) (names : List (List Char)) : Prop where
  openPrice : findColumn? names "open" = some layout.openPrice
  high : findColumn? names "high" = some layout.high
  low : findColumn? names "low" = some layout.low
  close : findColumn? names "close" = some layout.close
  volume : findColumn? names "volume" = some layout.volume
  time : ∃ name ∈ timeNames, ∃ index, findColumn? names name = some index ∧
    layout.time = some index

section

variable {names shown : List (List Char)} {name : String}

theorem findColumn?_congr (hname : name ∈ knownNames)
    (h : List.Forall₂
      (fun cell seen => ∀ name ∈ knownNames, HasName seen name ↔ HasName cell name) names shown) :
    findColumn? shown name = findColumn? names name := by
  unfold findColumn?
  induction h with
  | nil => rfl
  | @cons cell seen _ _ hcell _ ih =>
      have hsame : (seen.map Char.toLower == name.toList) =
          (cell.map Char.toLower == name.toList) := by
        rw [Bool.eq_iff_iff, beq_iff_eq, beq_iff_eq]
        exact hcell name hname
      rw [List.findIdx?_cons, List.findIdx?_cons, hsame, ih]

/-- A header names several columns. -/
theorem IsHeader.two_le_length (h : IsHeader names) : 2 ≤ names.length := by
  obtain ⟨cell, hcell, hopen⟩ := h.prices "open" (by decide)
  obtain ⟨other, hother, hhigh⟩ := h.prices "high" (by decide)
  cases names with
  | nil => exact absurd hcell List.not_mem_nil
  | cons first rest =>
      cases rest with
      | cons second rest => simp
      | nil =>
          rw [List.mem_singleton.mp hcell] at hopen
          rw [List.mem_singleton.mp hother] at hhigh
          exact absurd (hopen.symm.trans hhigh) (by decide)

/-- What is read of a header has its names in the same columns. -/
theorem findColumn?_header {first : List Char} {rest : List (List Char)}
    (h : IsHeader (first :: rest)) {seen : List Char}
    (hseen : seen = first ∨ seen = withoutStartMark first) (hname : name ∈ knownNames) :
    findColumn? ((seen :: rest).map trim) name = findColumn? (first :: rest) name := by
  apply findColumn?_congr hname
  rw [List.map_cons]
  constructor
  · intro name hname
    rcases hseen with rfl | rfl
    · exact hasName_iff (h.blanks _ (List.mem_cons_self ..)) trim_of_known hname
    · refine hasName_iff (h.mark _ rfl) (fun hfirst => ?_) hname
      rw [withoutStartMark_of_known hfirst, trim_of_known hfirst]
  · rw [List.forall₂_map_right_iff, List.forall₂_same]
    intro cell hcell name hname
    exact hasName_iff (h.blanks cell (List.mem_cons_of_mem _ hcell)) trim_of_known hname

theorem exists_findColumn? (h : ∃ cell ∈ names, HasName cell name) :
    ∃ index, findColumn? names name = some index := by
  obtain ⟨cell, hcell, h⟩ := h
  have hsome : (findColumn? names name).isSome = true := by
    unfold findColumn?
    rw [List.findIdx?_isSome, List.any_eq_true]
    exact ⟨cell, hcell, beq_iff_eq.mpr h⟩
  exact Option.isSome_iff_exists.mp hsome

/-- The time is found under one of its names. -/
theorem exists_findSome?_time (h : ∃ name ∈ timeNames, ∃ cell ∈ names, HasName cell name)
    (hshown : ∀ name ∈ knownNames, findColumn? shown name = findColumn? names name) :
    ∃ name ∈ timeNames, ∃ index, findColumn? names name = some index ∧
      timeNames.findSome? (findColumn? shown) = some index := by
  have hsome : (timeNames.findSome? (findColumn? shown)).isSome = true := by
    obtain ⟨name, hname, hcell⟩ := h
    obtain ⟨index, hindex⟩ := exists_findColumn? hcell
    rw [List.findSome?_isSome_iff]
    exact ⟨name, hname, by rw [hshown name (List.mem_append_right _ hname), hindex]; rfl⟩
  obtain ⟨index, hindex⟩ := Option.isSome_iff_exists.mp hsome
  obtain ⟨name, hname, hfound⟩ := List.exists_of_findSome?_eq_some hindex
  rw [hshown name (List.mem_append_right _ hname)] at hfound
  exact ⟨name, hname, index, hfound, hindex⟩

/-- A header has a layout. -/
theorem IsHeader.layout (h : IsHeader names) (hshown : ∀ name ∈ knownNames,
      findColumn? shown name = findColumn? names name) :
    ∃ layout, Layout.ofNames shown = .ok layout ∧ layout.Finds names := by
  have hprice : ∀ name ∈ requiredNames, ∃ index, findColumn? names name = some index ∧
      priceColumn shown name = .ok index := by
    intro name hname
    obtain ⟨index, hindex⟩ := exists_findColumn? (h.prices name hname)
    refine ⟨index, hindex, ?_⟩
    unfold priceColumn
    rw [hshown name (List.mem_append_left _ hname), hindex]
    rfl
  obtain ⟨openPrice, hopen, hopen'⟩ := hprice "open" (by decide)
  obtain ⟨high, hhigh, hhigh'⟩ := hprice "high" (by decide)
  obtain ⟨low, hlow, hlow'⟩ := hprice "low" (by decide)
  obtain ⟨close, hclose, hclose'⟩ := hprice "close" (by decide)
  obtain ⟨volume, hvolume, hvolume'⟩ := hprice "volume" (by decide)
  obtain ⟨name, hname, time, htime, htime'⟩ := exists_findSome?_time h.time hshown
  refine ⟨⟨openPrice, high, low, close, volume, some time⟩, ?_,
    ⟨hopen, hhigh, hlow, hclose, hvolume, name, hname, time, htime, rfl⟩⟩
  unfold Layout.ofNames
  rw [hopen', hhigh', hlow', hclose', hvolume', htime']
  rfl

end

/-! ## Rows -/

/-- What is written of a bar in the column of a name. -/
def Bar.cell (b : Bar) (name : String) : List Char :=
  match name with
  | "open" => plain b.openPrice
  | "high" => plain b.high
  | "low" => plain b.low
  | "close" => plain b.close
  | "volume" => plain b.volume
  | _ => b.time.dateTime

/-- A row that is written for a bar; in the other columns it says anything. -/
def IsRow (names : List (List Char)) (b : Bar) (cells : List (List Char)) : Prop :=
  List.Forall₂ (fun column cell => ∀ name ∈ knownNames, HasName column name → cell = b.cell name)
    names cells

instance (names : List (List Char)) (b : Bar) (cells : List (List Char)) :
    Decidable (IsRow names b cells) :=
  inferInstanceAs (Decidable (List.Forall₂ _ _ _))

theorem length_rows {names : List (List Char)} {bars : List Bar} {rows : List (List (List Char))}
    (h : List.Forall₂ (IsRow names) bars rows) : ∀ row ∈ rows, row.length = names.length := by
  induction h with
  | nil => exact nofun
  | cons hrow _ ih => exact List.forall_mem_cons.mpr ⟨hrow.length_eq.symm, ih⟩

/-- The time of a bar can be written: it is a whole second in the years of four digits. -/
def Bar.IsDatable (b : Bar) : Prop :=
  b.time.nanos = 0 ∧ b.time.InFourDigits

instance (b : Bar) : Decidable b.IsDatable :=
  inferInstanceAs (Decidable (_ = _ ∧ 0 ≤ _ ∧ _ ≤ _))

section

variable {names cells : List (List Char)} {name : String} {b : Bar} {layout : Layout} {row : ℕ}

theorem trim_cell (hb : b.IsDatable) (name : String) : trim (b.cell name) = b.cell name := by
  unfold Bar.cell
  split
  all_goals first | exact trim_plain _ | exact trim_dateTime hb.1 hb.2

theorem cell_time (hname : name ∈ timeNames) : b.cell name = b.time.dateTime := by
  simp only [timeNames, List.mem_cons, List.not_mem_nil, or_false] at hname
  rcases hname with rfl | rfl | rfl <;> rfl

/-- In the column of a name stands what was written there. -/
theorem cellAt_row (hb : b.IsDatable) (hrow : IsRow names b cells) (hname : name ∈ knownNames)
    {index : ℕ} (h : findColumn? names name = some index) :
    cellAt (cells.map trim) index = b.cell name := by
  obtain ⟨hlt, hfound, -⟩ := List.findIdx?_eq_some_iff_getElem.mp h
  have hcells : index < cells.length := hrow.length_eq ▸ hlt
  have hcell : cells[index] = b.cell name :=
    hrow.get hlt hcells name hname (beq_iff_eq.mp hfound)
  unfold cellAt
  rw [List.getElem?_map, List.getElem?_eq_getElem hcells, hcell]
  exact trim_cell hb name

theorem readPrice_row {x : Float} {index : ℕ}
    (h : cellAt cells index = plain x) (name : String) :
    readPrice cells name index = .ok x := by
  unfold readPrice
  dsimp only
  rw [h, read?_plain]
  rfl

/-- **A row reads back as its bar.** -/
theorem readBar_row (hlayout : layout.Finds names) (hb : b.IsDatable)
    (hrow : IsRow names b cells) : layout.readBar row (cells.map trim) = .ok b := by
  have hopen := cellAt_row hb hrow (by decide) hlayout.openPrice
  have hhigh := cellAt_row hb hrow (by decide) hlayout.high
  have hlow := cellAt_row hb hrow (by decide) hlayout.low
  have hclose := cellAt_row hb hrow (by decide) hlayout.close
  have hvolume := cellAt_row hb hrow (by decide) hlayout.volume
  obtain ⟨name, hname, index, hindex, htime⟩ := hlayout.time
  have hcell := cellAt_row hb hrow (List.mem_append_right _ hname) hindex
  have hread : readTime (cells.map trim) row (some index) = .ok b.time := by
    unfold readTime
    dsimp only
    rw [hcell, cell_time hname, read?_dateTime hb.1 hb.2]
    rfl
  unfold Layout.readBar
  rw [readPrice_row hopen, readPrice_row hhigh, readPrice_row hlow, readPrice_row hclose,
    readPrice_row hvolume, htime, hread]
  rfl

/-- **A record reads back as its bar.** -/
theorem readRecord_row {file : List Char} {record : Record Char}
    (hlayout : layout.Finds names) (hb : b.IsDatable) (hrow : IsRow names b record.cells) :
    layout.readRecord file names.length row record = .ok b := by
  have hcells : record.cells.length = names.length := hrow.length_eq.symm
  unfold Layout.readRecord
  dsimp only
  rw [if_neg (not_not.mpr hcells), rowCells_of_cellTexts? _ _ (cellTexts?_chars _)]
  exact readBar_row hlayout hb hrow

end

/-! ## Tables -/

section

variable {names : List (List Char)} {layout : Layout}

theorem readRecords_rows {file : List Char} (hlayout : layout.Finds names)
    {bars : List Bar} {rows : List (Record Char)} (hbars : ∀ b ∈ bars, b.IsDatable)
    (hrows : List.Forall₂ (fun b row => IsRow names b row.cells) bars rows) (start : ℕ) :
    (rows.zipIdx start).mapM (fun (record, row) =>
      (layout.readRecord file names.length row record).mapError (TableError.row row)) =
        .ok bars := by
  have hall := (List.forall₂_and_left _ _).mpr ⟨hbars, hrows⟩
  apply mapM_zipIdx_eq_ok _ hall.flip
  rintro record b row ⟨hb, hrow⟩
  dsimp only
  rw [readRecord_row hlayout hb hrow]
  rfl

theorem barsOfFile_text (text : List Char) :
    barsOfFile (String.ofList text).toUTF8 = readTable text := by
  unfold barsOfFile
  rw [fromUTF8?_text]
  dsimp only
  rw [String.toList_ofList]

/-- **A table of bars reads back.** -/
theorem barsOfFile_table {bars : List Bar} {rows : List (List (List Char))} {text : List Char}
    (hnames : IsHeader names) (hbars : ∀ b ∈ bars, b.IsDatable)
    (hrows : List.Forall₂ (IsRow names) bars rows)
    (htext : SpellsTable (names :: rows) text) :
    barsOfFile (String.ofList text).toUTF8 = .ok bars := by
  have hwide := hnames.two_le_length
  obtain ⟨first, rest, rfl⟩ := List.exists_cons_of_length_pos (Nat.lt_of_lt_of_le two_pos hwide)
  obtain ⟨seen, hseen, hshown⟩ := spellsTable_withoutStartMark htext
  have hcells := cells_records_table hshown (List.forall_mem_cons.mpr
    ⟨hwide, fun row hrow => hwide.trans_eq (length_rows hrows row hrow).symm⟩)
  obtain ⟨header, records, hrecords, hheader, hbehind⟩ := List.map_eq_cons_iff.mp hcells
  obtain ⟨layout, hlayout, hfinds⟩ := hnames.layout
    fun name hname => findColumn?_header hnames hseen hname
  rw [← hbehind, List.forall₂_map_right_iff] at hrows
  rw [barsOfFile_text]
  unfold readTable
  rw [hrecords]
  dsimp only
  rw [hheader, headerNames_of_cellTexts? (cellTexts?_chars _)]
  show (Layout.ofNames _ >>= _) = _
  rw [hlayout]
  exact readRecords_rows hfinds hbars hrows 0

/-- A header in another order and case, with a column more. -/
def mixedNames : List (List Char) :=
  ["Note, \"raw\"", "CLOSE", "open", "Date", "volume", "low", "High"].map String.toList

/-- One bar in the year zero and one in which a volume is missing. -/
def mixedBars : List Bar :=
  [⟨.ofSeconds (-62167219200), 1, 2, -0.5, 1.5, 1000000⟩,
   ⟨.ofSeconds 1709296200, 1.5, 2.25, 1, 2, 0 / 0⟩]

/-- The rows of `mixedBars`. -/
def mixedRows : List (List (List Char)) :=
  [["first", "1.5", "1", "0000-01-01 00:00:00", "1000000", "-0.5", "2"].map String.toList,
   ["two\nlines", "2", "1.5", "2024-03-01 12:30:00", "NaN", "1", "2.25"].map String.toList]

theorem barsOfFile_table_mixed :
    IsHeader mixedNames ∧ (∀ b ∈ mixedBars, b.IsDatable) ∧
      List.Forall₂ (IsRow mixedNames) mixedBars mixedRows ∧
      SpellsTable (mixedNames :: mixedRows) (writeTable (mixedNames :: mixedRows)) ∧
      barsOfFile (String.ofList (writeTable (mixedNames :: mixedRows))).toUTF8 =
        .ok mixedBars := by
  have hnames : IsHeader mixedNames :=
    ⟨by decide, by decide, by decide, by decide⟩
  have hbars : ∀ b ∈ mixedBars, b.IsDatable := by decide +kernel
  have hrows : List.Forall₂ (IsRow mixedNames) mixedBars mixedRows := by decide +kernel
  have htext : SpellsTable (mixedNames :: mixedRows) (writeTable (mixedNames :: mixedRows)) :=
    spellsTable_writeTable (by decide)
  exact ⟨hnames, hbars, hrows, htext, barsOfFile_table hnames hbars hrows htext⟩

/-- A header with two names that differ by a blank only. -/
def blankNames : List (List Char) :=
  [" open", "open", "high", "low", "close", "volume", "time"].map String.toList

def blankBar : Bar :=
  ⟨.ofSeconds 1709296200, 1, 2, 0.5, 1.5, 10⟩

def blankRow : List (List Char) :=
  ["9", "1", "2", "0.5", "1.5", "10", "2024-03-01 12:30:00"].map String.toList

/-- Blanks are stripped from names, so the first of the two columns is taken for the second. -/
theorem barsOfFile_blankNames :
    (∀ name ∈ requiredNames, blankNames.countP (HasName · name) = 1) ∧
      blankNames.countP (fun cell => ∃ name ∈ timeNames, HasName cell name) = 1 ∧
      blankBar.IsDatable ∧ IsRow blankNames blankBar blankRow ∧
      SpellsTable [blankNames, blankRow] (writeTable [blankNames, blankRow]) ∧
      barsOfFile (String.ofList (writeTable [blankNames, blankRow])).toUTF8 ≠
        .ok [blankBar] := by
  refine ⟨by decide, by decide, by decide +kernel, by decide +kernel,
    spellsTable_writeTable (by decide), ?_⟩
  have hopen : (barsOfFile (String.ofList
      (writeTable [blankNames, blankRow])).toUTF8).toOption.map (List.map Bar.openPrice) =
        some [9] := by
    decide +kernel
  intro h
  rw [h] at hopen
  exact absurd hopen (by decide)

end

end Barscript.Market
