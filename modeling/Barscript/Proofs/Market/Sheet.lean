import Mathlib.Data.List.Forall2
import Barscript.Market.Table

/-!
# What a table says

A table whose cells all are texts is a sheet: the names of its columns and the cells of its rows,
without the blanks around them. When every row has a cell for each name, the bars of the file are
those of its sheet (`barsOfFile_eq_bars`), so nothing about the file but its sheet matters: neither
how it quotes its cells, nor where its records stand.
-/

namespace Barscript.Market

open Barscript.Text

/-- The names of the columns of a table and the cells of its rows. -/
structure Sheet where
  names : List (List Char)
  rows : List (List (List Char))
deriving DecidableEq

/-- Every row has a cell for each name. -/
def Sheet.Rectangular (s : Sheet) : Prop :=
  ∀ row ∈ s.rows, row.length = s.names.length

instance (s : Sheet) : Decidable s.Rectangular :=
  inferInstanceAs (Decidable (∀ row ∈ s.rows, row.length = s.names.length))

section

variable {σ : Type} [Symbol σ]

/-- The texts of some cells without the blanks around them, if all are texts. -/
def cellTexts? (cells : List (List σ)) : Option (List (List Char)) :=
  cells.mapM fun cell => (Symbol.text cell).toOption.map trim

/-- The sheet of a file, if all its cells are texts. An empty file has no columns. -/
def Sheet.read? (file : List σ) : Option Sheet :=
  match records (withoutStartMark file) with
  | [] => some ⟨[], []⟩
  | header :: rows => do
    let names ← cellTexts? header.cells
    let cells ← rows.mapM fun row => cellTexts? row.cells
    return ⟨names, cells⟩

end

/-- The sheet in a file. -/
def Sheet.ofFile? (content : ByteArray) : Option Sheet :=
  match String.fromUTF8? content with
  | some text => Sheet.read? text.toList
  | none => Sheet.read? content.toList

/-- The bars that a sheet says. -/
def Sheet.bars (s : Sheet) : Except TableError (List Bar) := do
  let layout ← Layout.ofNames s.names
  s.rows.zipIdx.mapM fun (row, r) => (layout.readBar r row).mapError (.row r)

section

variable {α β : Type} {σ : Type} [Symbol σ]

theorem forall₂_of_mapM {f : α → Option β} {xs : List α} {ys : List β}
    (h : xs.mapM f = some ys) : List.Forall₂ (fun x y => f x = some y) xs ys := by
  induction xs generalizing ys with
  | nil =>
      obtain rfl : [] = ys := Option.some.inj h
      exact .nil
  | cons x xs ih =>
      rw [List.mapM_cons] at h
      obtain ⟨y, hy, h⟩ := Option.bind_eq_some_iff.mp h
      obtain ⟨rest, hrest, h⟩ := Option.bind_eq_some_iff.mp h
      obtain rfl : y :: rest = ys := Option.some.inj h
      exact .cons hy (ih hrest)

/-- Traversals that agree on related elements agree on related lists. -/
theorem mapM_zipIdx_congr {γ ε : Type} {R : α → β → Prop} {f : α × ℕ → Except ε γ}
    {g : β × ℕ → Except ε γ} {xs : List α} {ys : List β}
    (hfg : ∀ x y i, R x y → f (x, i) = g (y, i)) (h : List.Forall₂ R xs ys) (start : ℕ) :
    (xs.zipIdx start).mapM f = (ys.zipIdx start).mapM g := by
  induction h generalizing start with
  | nil => rfl
  | cons hxy _ ih =>
      rw [List.zipIdx_cons, List.zipIdx_cons, List.mapM_cons, List.mapM_cons, ih, hfg _ _ _ hxy]

/-- A traversal gives the elements that its own are read as. -/
theorem mapM_zipIdx_eq_ok {ε : Type} {R : α → β → Prop} {f : α × ℕ → Except ε β} {xs : List α}
    {ys : List β} (hf : ∀ x y i, R x y → f (x, i) = .ok y) (h : List.Forall₂ R xs ys)
    (start : ℕ) : (xs.zipIdx start).mapM f = .ok ys := by
  have hsame : (xs.zipIdx start).mapM f =
      (ys.zipIdx start).mapM fun y => (pure y.1 : Except ε β) :=
    mapM_zipIdx_congr hf h start
  rw [hsame, List.mapM_pure, List.zipIdx_map_fst]
  rfl

/-- Cells that are texts are read without a complaint. -/
theorem mapM_zipIdx_of_cellTexts? {ε : Type} {read : List σ × ℕ → Except ε (List Char)}
    (hread : ∀ cell index raw, Symbol.text cell = .ok raw → read (cell, index) = .ok (trim raw))
    {cells : List (List σ)} {texts : List (List Char)} (h : cellTexts? cells = some texts) :
    cells.zipIdx.mapM read = .ok texts := by
  apply mapM_zipIdx_eq_ok _ (forall₂_of_mapM h)
  intro cell text index htext
  obtain ⟨raw, hraw, rfl⟩ := Option.map_eq_some_iff.mp htext
  cases hcell : Symbol.text cell with
  | error valid =>
      rw [hcell] at hraw
      cases hraw
  | ok other =>
      rw [hcell] at hraw
      obtain rfl : other = raw := Option.some.inj hraw
      exact hread cell index other hcell

theorem headerNames_of_cellTexts? {cells : List (List σ)} {names : List (List Char)}
    (h : cellTexts? cells = some names) : headerNames cells = .ok names := by
  unfold headerNames
  apply mapM_zipIdx_of_cellTexts? _ h
  intro cell index raw hcell
  dsimp only
  rw [hcell]

theorem rowCells_of_cellTexts? {cells : List (List σ)} {texts : List (List Char)} (number : ℕ)
    (spot : Spot) (h : cellTexts? cells = some texts) : rowCells number spot cells = .ok texts := by
  unfold rowCells
  apply mapM_zipIdx_of_cellTexts? _ h
  intro cell index raw hcell
  dsimp only
  rw [hcell]

/-- Cells of a file that is text are texts. -/
theorem cellTexts?_chars (cells : List (List Char)) :
    cellTexts? cells = some (cells.map trim) := by
  show cells.mapM (fun cell => (pure (trim cell) : Option (List Char))) = _
  rw [List.mapM_pure]
  rfl

theorem fromUTF8?_text (text : List Char) :
    String.fromUTF8? (String.ofList text).toUTF8 = some (String.ofList text) :=
  dif_pos (String.ofList text).isValidUTF8

theorem length_of_cellTexts? {cells : List (List σ)} {texts : List (List Char)}
    (h : cellTexts? cells = some texts) : cells.length = texts.length :=
  (forall₂_of_mapM h).length_eq

/-! ## Reading a sheet -/

variable {layout : Layout} {s : Sheet}

/-- A record of the right width is read as its texts are. -/
theorem readRecord_of_cellTexts? {file : List σ} {record : Record σ} {texts : List (List Char)}
    {width row : ℕ} (h : cellTexts? record.cells = some texts) (hwidth : texts.length = width) :
    layout.readRecord file width row record = layout.readBar row texts := by
  have hcells : record.cells.length = width := (length_of_cellTexts? h).trans hwidth
  unfold Layout.readRecord
  dsimp only
  rw [if_neg (not_not.mpr hcells), rowCells_of_cellTexts? _ _ h]
  rfl

theorem readTable_eq_bars {file : List σ} (h : Sheet.read? file = some s)
    (hs : s.Rectangular) : readTable file = s.bars := by
  unfold Sheet.read? at h
  unfold readTable
  cases hrecords : records (withoutStartMark file) with
  | nil =>
      rw [hrecords] at h
      obtain rfl : ⟨[], []⟩ = s := Option.some.inj h
      rfl
  | cons header rows =>
      rw [hrecords] at h
      obtain ⟨names, hnames, h⟩ := Option.bind_eq_some_iff.mp h
      obtain ⟨cells, hcells, h⟩ := Option.bind_eq_some_iff.mp h
      obtain rfl : ⟨names, cells⟩ = s := Option.some.inj h
      have hheader := length_of_cellTexts? hnames
      dsimp only
      rw [headerNames_of_cellTexts? hnames]
      show (Layout.ofNames names >>= _) = (Layout.ofNames names >>= _)
      congr
      funext layout
      rw [hheader]
      have hrows : List.Forall₂
          (fun texts row => texts.length = names.length ∧ cellTexts? row.cells = some texts)
          cells rows :=
        (List.forall₂_and_left _ _).mpr ⟨hs, (forall₂_of_mapM hcells).flip⟩
      refine mapM_zipIdx_congr ?_ hrows.flip 0
      rintro record texts row ⟨hwidth, htexts⟩
      dsimp only
      rw [readRecord_of_cellTexts? htexts hwidth]

/-- **The bars of a file are those of its sheet.** -/
theorem barsOfFile_eq_bars {content : ByteArray} (h : Sheet.ofFile? content = some s)
    (hs : s.Rectangular) : barsOfFile content = s.bars := by
  unfold Sheet.ofFile? at h
  unfold barsOfFile
  cases htext : String.fromUTF8? content with
  | none =>
      rw [htext] at h
      exact readTable_eq_bars h hs
  | some text =>
      rw [htext] at h
      exact readTable_eq_bars h hs

end

end Barscript.Market
