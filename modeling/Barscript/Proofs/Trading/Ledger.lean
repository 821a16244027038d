import Barscript.Trading.Report
import Barscript.Market.Bar

/-!
# Trade logs

In a well-kept log trades are opened and closed in turn (`Turns`): every exit
closes the trade that the entry in front of it opened, in the same direction,
and realizes its gain. The capital at a bar is what was there at first with
the gains realized up to that bar (`capitalAt`).
-/

namespace Barscript.Trading

open Barscript.Market

/-- The element of a list with one more at its end. -/
theorem getElem?_concat_cases {α : Type} {xs : List α} {x y : α} {i : Nat}
    (h : (xs ++ [x])[i]? = some y) :
    xs[i]? = some y ∨ i = xs.length ∧ y = x := by
  rcases Nat.lt_trichotomy i xs.length with hi | hi | hi
  · rw [List.getElem?_append_left hi] at h
    exact Or.inl h
  · subst hi
    rw [List.getElem?_concat_length] at h
    exact Or.inr ⟨rfl, (Option.some.inj h).symm⟩
  · rw [List.getElem?_append_right (Nat.le_of_lt hi),
      List.getElem?_eq_none (by simp; omega)] at h
    cases h

/-! ## Entries and exits in turn -/

/-- A log in which trades are opened and closed in turn, and the entry of the
trade that is still open behind it. -/
inductive Turns : List Trade → Option Trade → Prop where
  | start : Turns [] none
  | entry {log : List Trade} {e : Trade} (h : Turns log none)
      (hkind : e.kind = .entry) (hgain : e.gain = none) :
      Turns (log ++ [e]) (some e)
  | exit {log : List Trade} {e x : Trade} (h : Turns log (some e))
      (hkind : x.kind = .exit) (hdirection : x.direction = e.direction)
      (hgain : x.gain = some ((x.price - e.price) * e.direction.sign)) :
      Turns (log ++ [x]) none

section

variable {log : List Trade} {last : Option Trade}

/-- A trade is open behind an odd number of events, and the last of them opened
it. -/
theorem Turns.length_mod (h : Turns log last) :
    log.length % 2 = (if last.isSome then 1 else 0) ∧
      ∀ e, last = some e → log.getLast? = some e := by
  induction h with
  | start => simp
  | entry _ _ _ ih => simp at ih ⊢; omega
  | exit _ _ _ _ ih => simp at ih ⊢; omega

/-- **Entries and exits alternate**, the first event being an entry. -/
theorem Turns.kind_eq (h : Turns log last) {i : Nat} {t : Trade}
    (ht : log[i]? = some t) :
    t.kind = if i % 2 = 0 then .entry else .exit := by
  induction h with
  | start => cases ht
  | entry h hkind _ ih =>
      rcases getElem?_concat_cases ht with ht | ⟨rfl, rfl⟩
      · exact ih ht
      · have hlength := h.length_mod.1
        rw [hkind, hlength]
        rfl
  | exit h hkind _ _ ih =>
      rcases getElem?_concat_cases ht with ht | ⟨rfl, rfl⟩
      · exact ih ht
      · have hlength := h.length_mod.1
        rw [hkind, hlength]
        rfl

/-- Entering realizes nothing. -/
theorem Turns.gain_entry (h : Turns log last) {t : Trade} (ht : t ∈ log)
    (hkind : t.kind = .entry) : t.gain = none := by
  induction h with
  | start => cases ht
  | entry _ _ hgain ih =>
      rcases List.mem_append.mp ht with ht | ht
      · exact ih ht
      · rw [List.mem_singleton.mp ht]
        exact hgain
  | exit _ hexit _ _ ih =>
      rcases List.mem_append.mp ht with ht | ht
      · exact ih ht
      · rw [List.mem_singleton.mp ht, hexit] at hkind
        cases hkind

/-- **An exit closes the trade in front of it.** -/
theorem Turns.closes (h : Turns log last) {i : Nat} {e x : Trade}
    (he : log[i]? = some e) (hx : log[i + 1]? = some x)
    (hkind : x.kind = .exit) :
    x.direction = e.direction ∧
      x.gain = some ((x.price - e.price) * e.direction.sign) := by
  induction h with
  | start => cases he
  | entry _ hentry _ ih =>
      rcases getElem?_concat_cases hx with hx | ⟨_, rfl⟩
      · have hi := (List.getElem?_eq_some_iff.mp hx).1
        rw [List.getElem?_append_left (by omega)] at he
        exact ih he hx
      · rw [hentry] at hkind
        cases hkind
  | @exit log first _ h _ hdirection hgain ih =>
      rcases getElem?_concat_cases hx with hx | ⟨hlength, rfl⟩
      · have hi := (List.getElem?_eq_some_iff.mp hx).1
        rw [List.getElem?_append_left (by omega)] at he
        exact ih he hx
      · -- In front of the new exit stands the entry that is open.
        have hlast := h.length_mod.2 first rfl
        rw [List.getLast?_eq_getElem?, ← hlength, Nat.add_sub_cancel] at hlast
        rw [List.getElem?_append_left (by omega), hlast] at he
        cases he
        exact ⟨hdirection, hgain⟩

end

/-! ## Capital -/

/-- The gains realized up to a bar, in the order of the log. -/
def gainsUpTo (trades : List Trade) (index : Nat) : List Float :=
  (trades.filter fun t => t.isExit && decide (t.bar ≤ index)).filterMap
    Trade.gain

/-- The capital at a bar: what was there at first with the gains up to it. -/
def capitalAt (capital : Float) (trades : List Trade) (index : Nat) : Float :=
  (gainsUpTo trades index).foldl (· + ·) capital

section

variable {capital : Float} {trades : List Trade} {t : Trade} {i : Nat}

/-- What happens later changes nothing. -/
theorem capitalAt_later (h : i < t.bar) :
    capitalAt capital (trades ++ [t]) i = capitalAt capital trades i := by
  have hbar : ¬ t.bar ≤ i := Nat.not_le.mpr h
  simp [capitalAt, gainsUpTo, hbar]

/-- Entering changes nothing. -/
theorem capitalAt_entry (h : t.isExit = false) :
    capitalAt capital (trades ++ [t]) i = capitalAt capital trades i := by
  simp [capitalAt, gainsUpTo, h]

/-- Leaving adds the gain. -/
theorem capitalAt_exit (h : t.isExit = true) (hbar : t.bar ≤ i) {gain : Float}
    (hgain : t.gain = some gain) :
    capitalAt capital (trades ++ [t]) i =
      capitalAt capital trades i + gain := by
  simp [capitalAt, gainsUpTo, h, hbar, hgain]

end

/-! ## Figures -/

/-- A closed trade counts once, and as won or lost at most once. -/
theorem tally_add (t : Tally) (gain : Float) :
    (t.add gain).total = t.total + 1 ∧
      (t.add gain).winning + (t.add gain).losing ≤
        t.winning + t.losing + 1 := by
  unfold Tally.add
  dsimp only
  split
  · exact ⟨rfl, by dsimp only; omega⟩
  · split
    · exact ⟨rfl, Nat.le_refl _⟩
    · exact ⟨rfl, Nat.le_succ _⟩

theorem tally_foldl (exits : List Trade) (t : Tally)
    (h : t.winning + t.losing ≤ t.total) :
    let all := exits.foldl (fun t trade => t.add (trade.gain.getD 0.0)) t
    all.total = t.total + exits.length ∧
      all.winning + all.losing ≤ all.total := by
  induction exits generalizing t with
  | nil => exact ⟨rfl, h⟩
  | cons x rest ih =>
      obtain ⟨htotal, hdecided⟩ := tally_add t (x.gain.getD 0.0)
      have hstep := ih (t.add (x.gain.getD 0.0)) (by omega)
      dsimp only at hstep ⊢
      rw [List.foldl_cons, List.length_cons, hstep.1, htotal]
      constructor
      · omega
      · rw [← htotal, ← hstep.1]
        exact hstep.2

/-- **The figures count the exits of the log**, and count as won or lost no
more than these. -/
theorem tally_ofTrades (trades : List Trade) :
    (Tally.ofTrades trades).total = (trades.filter Trade.isExit).length ∧
      (Tally.ofTrades trades).winning + (Tally.ofTrades trades).losing ≤
        (Tally.ofTrades trades).total := by
  have hall := tally_foldl (trades.filter Trade.isExit) .empty (Nat.le_refl _)
  rw [show Tally.empty.total = 0 from rfl, Nat.zero_add] at hall
  exact hall

/-! ## Reports -/

/-- A report that keeps the books of a run over some bars. -/
structure WellKept (bars : List Bar) (config : Config) (r : Report) :
    Prop where
  turns : ∀ i t, r.trades[i]? = some t →
    t.kind = if i % 2 = 0 then .entry else .exit
  increasing : r.trades.Pairwise fun a b => a.bar < b.bar
  /-- Every event happens at the close of its bar, but for the first bar. -/
  placed : ∀ t ∈ r.trades, 1 ≤ t.bar ∧ ∃ bar, bars[t.bar]? = some bar ∧
    t.price = bar.close ∧ t.time = bar.time
  opens : ∀ t ∈ r.trades, t.kind = .entry → t.gain = none
  closes : ∀ i e x, r.trades[i]? = some e → r.trades[i + 1]? = some x →
    x.kind = .exit → x.direction = e.direction ∧
      x.gain = some ((x.price - e.price) * e.direction.sign)
  length_curve : r.curve.length = max 1 bars.length
  initial : r.initialCapital = config.capital ∧
    r.curve.head? = some config.capital
  curve : ∀ i, i < r.curve.length →
    r.curve[i]? = some (capitalAt config.capital r.trades i)
  final : r.curve.getLast? = some r.finalCapital
  total : r.stats.totalTrades = (r.trades.filter Trade.isExit).length
  decided : r.stats.winningTrades + r.stats.losingTrades ≤
    r.stats.totalTrades

end Barscript.Trading
