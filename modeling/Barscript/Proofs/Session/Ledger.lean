import Barscript.Proofs.Session.Backtest
import Barscript.Proofs.Trading.Ledger

/-!
# The books of a backtest

Whatever the guards of a strategy say, a backtest keeps its books well
(`runBacktest_wellKept`): what is held is the trade that the log leaves open,
entered at the remembered price, and the capital is what the log says.
-/

namespace Barscript.Session

open Barscript.Script Barscript.Market Barscript.Trading

/-! ## What the log says of the progress -/

/-- What is held is the trade that an entry opened. -/
def Progress.Holds (p : Progress) : Option Trade → Prop
  | none => p.position = .flat
  | some e => p.position = .ofDirection e.direction ∧ p.entryPrice = e.price

/-- The books before the bar numbered `n`. -/
structure Progress.Booked (bars : List Bar) (capital : Float) (n : Nat)
    (p : Progress) : Prop where
  turns : ∃ last, Turns p.trades last ∧ p.Holds last
  increasing : p.trades.Pairwise fun a b => a.bar < b.bar
  before : ∀ t ∈ p.trades, t.bar < n
  placed : ∀ t ∈ p.trades, 1 ≤ t.bar ∧ ∃ bar, bars[t.bar]? = some bar ∧
    t.price = bar.close ∧ t.time = bar.time
  length_curve : p.curve.length = n
  curve : ∀ i, i < n → p.curve[i]? = some (capitalAt capital p.trades i)
  /-- All gains so far are in the capital. -/
  equity : ∀ i, n ≤ i + 1 → p.equity = capitalAt capital p.trades i

section

variable {bars : List Bar} {capital : Float} {n : Nat} {p q : Progress}

theorem booked_start (bars : List Bar) (capital : Float) :
    (Progress.start capital).Booked bars capital 1 where
  turns := ⟨none, .start, rfl⟩
  increasing := List.Pairwise.nil
  before t ht := nomatch ht
  placed t ht := nomatch ht
  length_curve := rfl
  curve i hi := by
    obtain rfl : i = 0 := by omega
    rfl
  equity i hi := rfl

/-- A bar without an event. -/
theorem Progress.Booked.note_same (h : p.Booked bars capital n) :
    p.note.Booked bars capital (n + 1) where
  turns := h.turns
  increasing := h.increasing
  before t ht := Nat.lt_succ_of_lt (h.before t ht)
  placed := h.placed
  length_curve := by
    rw [Progress.note, List.length_append, h.length_curve]
    rfl
  curve i hi := by
    show (p.curve ++ [p.equity])[i]? = some (capitalAt capital p.trades i)
    rcases Nat.lt_or_eq_of_le (Nat.le_of_lt_succ hi) with hi | rfl
    · rw [List.getElem?_append_left (by rw [h.length_curve]; exact hi)]
      exact h.curve i hi
    · have hlength := h.length_curve
      rw [← h.equity i (Nat.le_succ i)]
      subst hlength
      exact List.getElem?_concat_length
  equity i hi := h.equity i (by omega)

/-- **A bar with an event at its close.** What is held afterwards and what the
capital is have to agree with it. -/
theorem Progress.Booked.note_event (h : p.Booked bars capital n) (hn : 1 ≤ n)
    {bar : Bar} (hbar : bars[n]? = some bar) {t : Trade} {last : Option Trade}
    (htrades : q.trades = p.trades ++ [t]) (hcurve : q.curve = p.curve)
    (hindex : t.bar = n) (hplaced : t.price = bar.close ∧ t.time = bar.time)
    (hturns : Turns (p.trades ++ [t]) last) (hholds : q.Holds last)
    (hequity : ∀ i, n ≤ i →
      q.equity = capitalAt capital (p.trades ++ [t]) i) :
    q.note.Booked bars capital (n + 1) where
  turns := ⟨last, by rw [Progress.note, htrades]; exact hturns, by
    cases last <;> exact hholds⟩
  increasing := by
    rw [Progress.note, htrades, List.pairwise_append]
    refine ⟨h.increasing, List.pairwise_singleton _ _, ?_⟩
    intro a ha b hb
    rw [List.mem_singleton.mp hb, hindex]
    exact h.before a ha
  before u hu := by
    rw [Progress.note, htrades] at hu
    rcases List.mem_append.mp hu with hu | hu
    · exact Nat.lt_succ_of_lt (h.before u hu)
    · rw [List.mem_singleton.mp hu, hindex]
      exact Nat.lt_succ_self n
  placed u hu := by
    rw [Progress.note, htrades] at hu
    rcases List.mem_append.mp hu with hu | hu
    · exact h.placed u hu
    · rw [List.mem_singleton.mp hu, hindex]
      exact ⟨hn, bar, hbar, hplaced⟩
  length_curve := by
    rw [Progress.note, hcurve, List.length_append, h.length_curve]
    rfl
  curve i hi := by
    show (q.curve ++ [q.equity])[i]? = some (capitalAt capital q.trades i)
    rw [htrades, hcurve]
    rcases Nat.lt_or_eq_of_le (Nat.le_of_lt_succ hi) with hi | rfl
    · rw [List.getElem?_append_left (by rw [h.length_curve]; exact hi),
        capitalAt_later (by omega)]
      exact h.curve i hi
    · have hlength := h.length_curve
      rw [← hequity i (Nat.le_refl i)]
      subst hlength
      exact List.getElem?_concat_length
  equity i hi := by
    show q.equity = capitalAt capital q.trades i
    rw [htrades]
    exact hequity i (by omega)

/-- **Every bar keeps the books.** -/
theorem Progress.Booked.trade (h : p.Booked bars capital n) (hn : 1 ≤ n)
    {bar : Bar} (hbar : bars[n]? = some bar) (w : World) (memory : Memory) :
    (p.trade w bar n memory).1.note.Booked bars capital (n + 1) := by
  obtain ⟨last, hturns, hholds⟩ := h.turns
  rcases trade_cases w p bar n memory with
    heq | ⟨d, hflat, heq⟩ | ⟨d, hheld, heq⟩
  · rw [heq]
    exact h.note_same
  · rw [heq]
    -- Nothing is open in the log while nothing is held.
    obtain rfl : last = none := by
      cases last with
      | none => rfl
      | some e =>
          have hopen := hholds.1
          rw [hflat] at hopen
          cases hd : e.direction <;> rw [hd] at hopen <;> cases hopen
    let e := Trade.entering d bar.close n bar.time
    have hopened : Turns (p.trades ++ [e]) (some e) := .entry hturns rfl rfl
    refine h.note_event hn hbar rfl rfl rfl ⟨rfl, rfl⟩ hopened ⟨rfl, rfl⟩ ?_
    intro i hi
    rw [capitalAt_entry rfl]
    exact h.equity i (by omega)
  · rw [heq]
    -- The trade that is held is the one that the log leaves open.
    cases last with
    | none =>
        have hopen : p.position = .flat := hholds
        rw [hheld] at hopen
        cases d <;> cases hopen
    | some e =>
        obtain ⟨hopen, hprice⟩ := hholds
        obtain rfl : d = e.direction := by
          rw [hheld] at hopen
          cases d <;> cases hd : e.direction <;> rw [hd] at hopen <;>
            first | rfl | cases hopen
        let x := Trade.leaving e.direction bar.close n bar.time
          ((bar.close - p.entryPrice) * e.direction.sign)
        have hgain : x.gain =
            some ((bar.close - e.price) * e.direction.sign) := by
          rw [← hprice]
          rfl
        have hclosed : Turns (p.trades ++ [x]) none :=
          .exit hturns rfl rfl hgain
        refine h.note_event hn hbar rfl rfl rfl ⟨rfl, rfl⟩ hclosed rfl ?_
        intro i hi
        rw [capitalAt_exit rfl hi rfl, ← h.equity i (by omega)]
        rfl

/-- **A run keeps the books** over all its bars. -/
theorem Progress.Booked.over (h : p.Booked bars capital n) (hn : 1 ≤ n)
    {rest : List Bar} (hrest : bars.drop n = rest) (w : World)
    (memory : Memory) :
    (p.over w n rest memory).1.Booked bars capital (n + rest.length) := by
  induction rest generalizing p n memory with
  | nil => exact h
  | cons bar rest ih =>
      have hbar : bars[n]? = some bar := by
        rw [← Nat.add_zero n, ← List.getElem?_drop, hrest]
        rfl
      have hbehind : bars.drop (n + 1) = rest := by
        rw [← List.drop_drop, hrest]
        rfl
      have hnext := ih (h.trade hn hbar w memory) (by omega) hbehind
        (p.trade w bar n memory).2
      rw [List.length_cons, Nat.add_comm rest.length 1, ← Nat.add_assoc]
      exact hnext

end

/-- **Every report is well kept**, of any session and for any settings. -/
theorem runBacktest_wellKept (s : Session) (config : Config) :
    WellKept s.bars config (s.runBacktest config).1 := by
  have htail : s.bars.drop 1 = s.bars.tail := List.drop_one
  have h := (booked_start s.bars config.capital).over (Nat.le_refl 1) htail
    s.toWorld ⟨[], []⟩
  have hreport : (s.runBacktest config).1 =
      .of config (s.toWorld.backtest config.capital ⟨[], []⟩).1.trades
        (s.toWorld.backtest config.capital ⟨[], []⟩).1.curve := rfl
  rw [hreport]
  unfold World.backtest
  generalize ((Progress.start config.capital).over s.toWorld 1 s.bars.tail
    ⟨[], []⟩).1 = p at h ⊢
  have hlength : 1 + s.bars.tail.length = max 1 s.bars.length := by
    rw [List.length_tail]
    omega
  rw [hlength] at h
  have hstarts : p.curve.head? = some config.capital := by
    rw [List.head?_eq_getElem?, h.curve 0 (by omega)]
    -- No event happens on the first bar.
    have hnone : gainsUpTo p.trades 0 = [] := by
      unfold gainsUpTo
      rw [List.filter_eq_nil_iff.mpr, List.filterMap_nil]
      intro t ht
      have hbar := (h.placed t ht).1
      simp only [Bool.and_eq_true, decide_eq_true_eq]
      omega
    rw [capitalAt, hnone]
    rfl
  obtain ⟨last, hturns, _⟩ := h.turns
  obtain ⟨htotal, hdecided⟩ := tally_ofTrades p.trades
  constructor
  · exact fun i t ht => hturns.kind_eq ht
  · exact h.increasing
  · exact h.placed
  · exact fun t ht hkind => hturns.gain_entry ht hkind
  · exact fun i e x he hx hkind => hturns.closes he hx hkind
  · exact h.length_curve
  · exact ⟨rfl, hstarts⟩
  · exact fun i hi => h.curve i (by rw [← h.length_curve]; exact hi)
  · show p.curve.getLast? = some (finalCapital config.capital p.curve)
    have hne : p.curve ≠ [] := by
      rintro hnil
      rw [hnil] at hstarts
      cases hstarts
    rw [finalCapital, List.getLast?_eq_some_getLast hne]
    rfl
  · exact htotal
  · exact hdecided

end Barscript.Session
