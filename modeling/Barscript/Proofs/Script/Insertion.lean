import Barscript.Proofs.Script.Inert
import Mathlib.Order.Monotone.Basic

/-!
# Lines without effect

A call that is no input, no order and no indicator says nothing: put as a line
of its own wherever a statement may start, it leaves the strategy of a script
as it is, up to the identities of the calls (`parse_insert_call`). The
arguments of the call have no names that a statement could start with: a name
in front of an equals sign is read as an assignment, also inside of a call
(`named_argument_defines`).
-/

namespace Barscript.Script

/-! ## Lines -/

/-- The text of some lines. -/
def joined (lines : List (List Char)) : List Char :=
  ['\n'].intercalate lines

/-- The script of some lines. -/
def script (lines : List (List Char)) : String :=
  String.ofList (joined lines)

theorem joined_cons (line : List Char) {lines : List (List Char)}
    (h : lines ≠ []) :
    joined (line :: lines) = line ++ '\n' :: joined lines := by
  cases lines with
  | nil => exact absurd rfl h
  | cons next rest => rfl

theorem joined_append {front behind : List (List Char)} (hfront : front ≠ [])
    (hbehind : behind ≠ []) :
    joined (front ++ behind) = joined front ++ '\n' :: joined behind := by
  induction front with
  | nil => exact absurd rfl hfront
  | cons line rest ih =>
      rw [List.cons_append]
      cases rest with
      | nil =>
          rw [List.nil_append, joined_cons line hbehind]
          congr 1
          exact (List.append_nil line).symm
      | cons next rest =>
          rw [joined_cons line (by simp), ih (by simp),
            joined_cons line (by simp), List.append_assoc]
          rfl

/-- What lines behind others spell, with the end of the line in front. -/
def spelledBehind : List (List Char) → List Spelling
  | [] => []
  | lines => lineBreak :: spellings (joined lines)

theorem atLineEnd_spelledBehind (lines : List (List Char)) :
    AtLineEnd (spelledBehind lines) := by
  intro s hs
  cases lines with
  | nil => cases hs
  | cons line rest =>
      cases hs
      rfl

theorem spellings_joined {front : List (List Char)} (hfront : front ≠ [])
    (hclosed : StringsClosed (joined front)) (behind : List (List Char)) :
    spellings (joined (front ++ behind)) =
      spellings (joined front) ++ spelledBehind behind := by
  cases behind with
  | nil =>
      rw [List.append_nil]
      exact (List.append_nil _).symm
  | cons line rest =>
      rw [joined_append hfront (List.cons_ne_nil _ _), spellings_line hclosed]
      rfl

/-- A line and those behind it. -/
theorem spellings_line_behind {line : List Char} (hclosed : StringsClosed line)
    (behind : List (List Char)) :
    spellings (joined (line :: behind)) =
      spellings line ++ spelledBehind behind := by
  have hline : joined [line] = line := List.append_nil line
  have hlines := spellings_joined (List.cons_ne_nil line []) (by rwa [hline])
    behind
  rwa [hline] at hlines

theorem ahead_script (lines : List (List Char)) :
    (Cursor.ofSource (script lines)).ahead = spellings (joined lines) := by
  rw [ahead_ofSource]
  unfold script
  rw [String.toList_ofList]

/-! ## Calls -/

/-- A line with a call of no input, order or indicator and with well-formed
arguments, whose names are among `labels`. -/
structure CallLine (labels : Spelling → Prop) (text : List Char) : Prop where
  stringsClosed : StringsClosed text
  call : ∃ name l A, spellings text = name :: (.leftParen, l) :: A ∧
    Spelling.isName name = true ∧ Unmarked name.2 ∧
    Stands labels .arguments A []

/-- Behind these lines a statement may start: nothing in them is left open. -/
structure MayStart (front : List (List Char)) : Prop where
  stringsClosed : StringsClosed (joined front)
  parses : ∃ all, statementsOf (script front) = .ok all

theorem statements_of_ahead_nil {c : Cursor} (h : c.ahead = []) :
    statements c = .ok [] :=
  statements_nil (List.map_eq_nil_iff.mp h)

theorem Passes.ok {c rest : Cursor} {xs ys : List Statement}
    (h : Passes c xs rest) (hrest : statements rest = .ok ys) :
    statements c = .ok (xs ++ ys) := by
  unfold Passes at h
  rw [h, hrest]
  rfl

theorem passes_lineBreak {c : Cursor} {A : List Spelling}
    (h : c.ahead = lineBreak :: A) :
    ∃ token rest, Passes c [.passedOver token] rest ∧ rest.ahead = A ∧
      rest.nextId = c.nextId := by
  obtain ⟨token, pending, hpending, hspelling, hahead⟩ := ahead_cons h
  exact ⟨token, c.leaving pending,
    passes_newline hpending (congrArg Prod.fst hspelling), hahead, rfl⟩

/-- **The call is passed over** and adds nothing to a strategy. -/
theorem passes_callLine {text : List Char} (h : CallLine QuietLabel text) {c : Cursor}
    {X : List Spelling} (hX : AtLineEnd X)
    (hahead : c.ahead = spellings text ++ X) :
    ∃ all rest, Passes c all rest ∧ rest.ahead = X ∧
      c.nextId ≤ rest.nextId ∧
      ∀ s : Strategy, all.foldl Strategy.add s = s := by
  obtain ⟨name, l, A, hspelled, hname, hunmarked, hargs⟩ := h.call
  -- First the call alone, with as many calls in front of it.
  let alone : Cursor := { Cursor.ofSource (String.ofList text) with
    nextId := c.nextId }
  have halone : alone.ahead = spellings text :=
    (ahead_ofSource _).trans (by rw [String.toList_ofList])
  have hskips : Skips (spellings text) [] := by
    rw [hspelled]
    exact skips_of_stands (.call hname hunmarked hargs) [] [] .ended rfl
      (.refl []) (.refl [])
  obtain ⟨all, rest, hpasses, hrest, _, hall⟩ :=
    passes_of_skips hskips alone halone
  obtain ⟨high, hhigh, hmirrors⟩ := mirrors_statements alone
    (hpasses.ok (statements_of_ahead_nil hrest))
  obtain ⟨all', rest', hpasses', _, hrest', hcount, halike⟩ :=
    hmirrors X 0 c hX ⟨by rw [hahead, halone], rfl⟩
  refine ⟨all', rest', hpasses', hrest', by rw [hcount]; exact hhigh, ?_⟩
  intro s
  have hsame := halike id (fun _ _ _ => rfl) s
  rw [strategy_renumber_id, strategy_renumber_id, List.append_nil, hall]
    at hsame
  exact hsame

/-! ## Insertion -/

/-- The identities from `first` on, raised by `count`. -/
def raise (first count : Nat) (i : Nat) : Nat :=
  if i < first then i else i + count

theorem strictMono_raise (first count : Nat) :
    StrictMono (raise first count) := by
  intro i j hij
  unfold raise
  split <;> split <;> omega

/-- A script that is read again behind `count` more calls. -/
theorem raise_statements {c c' : Cursor} (hahead : c'.ahead = c.ahead)
    {count : Nat} (hcount : c'.nextId = c.nextId + count)
    {all : List Statement} (hall : statements c = .ok all) :
    ∃ all', statements c' = .ok all' ∧ ∀ s : Strategy,
      all'.foldl Strategy.add (s.renumber (raise c.nextId count)) =
        (all.foldl Strategy.add s).renumber (raise c.nextId count) := by
  obtain ⟨high, _, hmirrors⟩ := mirrors_statements c hall
  obtain ⟨all', rest, hpasses, _, hrest, _, halike⟩ := hmirrors [] count c'
    (fun _ hs => nomatch hs) ⟨by rw [hahead, List.append_nil], hcount⟩
  refine ⟨all', ?_, ?_⟩
  · have hok := hpasses.ok (statements_of_ahead_nil hrest)
    rwa [List.append_nil] at hok
  · refine halike _ fun i hi _ => ?_
    unfold raise
    rw [if_neg (Nat.not_lt.mpr hi)]

/-- A call in front of what is left of a script. -/
theorem statements_behind_call {text : List Char} (h : CallLine QuietLabel text)
    {c c' : Cursor} {Y : List Spelling} (hY : AtLineEnd Y)
    (hahead : c.ahead = Y ∨ Y = lineBreak :: c.ahead)
    (hahead' : c'.ahead = spellings text ++ Y) (hcount : c'.nextId = c.nextId)
    {all : List Statement} (hall : statements c = .ok all) :
    ∃ all' count, statements c' = .ok all' ∧ ∀ s : Strategy,
      all'.foldl Strategy.add (s.renumber (raise c.nextId count)) =
        (all.foldl Strategy.add s).renumber (raise c.nextId count) := by
  obtain ⟨xs, rest, hpasses, hrest, hless, hxs⟩ := passes_callLine h hY hahead'
  -- Behind the call, and behind the end of its line, the script goes on.
  obtain ⟨ys, rest', hpasses', hrest', hcount', hys⟩ : ∃ ys rest',
      Passes rest ys rest' ∧ rest'.ahead = c.ahead ∧
        rest'.nextId = rest.nextId ∧
        ∀ s : Strategy, ys.foldl Strategy.add s = s := by
    rcases hahead with rfl | rfl
    · exact ⟨[], rest, .refl rest, hrest, rfl, fun _ => rfl⟩
    · obtain ⟨token, rest', hpasses', hrest', hcount'⟩ := passes_lineBreak hrest
      exact ⟨[.passedOver token], rest', hpasses', hrest', hcount',
        fun _ => rfl⟩
  have hcount'' : rest'.nextId = c.nextId + (rest.nextId - c.nextId) := by
    omega
  obtain ⟨all', hall', halike⟩ := raise_statements hrest' hcount'' hall
  refine ⟨xs ++ (ys ++ all'), rest.nextId - c.nextId,
    hpasses.ok (hpasses'.ok hall'), ?_⟩
  intro s
  rw [List.foldl_append, List.foldl_append, hxs, hys]
  exact halike s

/-- What the script says before the call, it says with it. -/
theorem parse_of_statements {source source' : String}
    {all all' : List Statement} {f : Nat → Nat}
    (hall : statementsOf source = .ok all)
    (hall' : statementsOf source' = .ok all')
    (hsame : all'.foldl Strategy.add .empty =
      (all.foldl Strategy.add .empty).renumber f) {s : Strategy}
    (hs : Strategy.parse source = .ok s) :
    Strategy.parse source' = .ok (s.renumber f) := by
  unfold Strategy.parse at hs ⊢
  rw [hall] at hs
  cases hs
  rw [hall']
  exact congrArg Except.ok hsame

theorem ahead_insert {front behind : List (List Char)} {call : List Char}
    (hfront : front ≠ []) (h : MayStart front)
    (hcall : CallLine QuietLabel call) :
    spellings (joined (front ++ call :: behind)) =
      spellings (joined front) ++
        lineBreak :: (spellings call ++ spelledBehind behind) := by
  rw [spellings_joined hfront h.stringsClosed,
    ← spellings_line_behind hcall.stringsClosed]
  rfl

/-- **A call that is no statement has no effect.** A script parses with it in
a line of its own wherever a statement may start, and says the same: only the
identities of calls differ, and they keep their order. -/
theorem parse_insert_call (front behind : List (List Char)) {call : List Char}
    (hcall : CallLine QuietLabel call) (hfront : MayStart front) {s : Strategy}
    (hs : Strategy.parse (script (front ++ behind)) = .ok s) :
    ∃ f : Nat → Nat, StrictMono f ∧
      Strategy.parse (script (front ++ call :: behind)) =
        .ok (s.renumber f) := by
  obtain ⟨all, hall, _⟩ := statements_of_parse hs
  have hY := atLineEnd_spelledBehind behind
  by_cases hne : front = []
  · -- The call is the first line.
    subst hne
    have hahead : (Cursor.ofSource (script behind)).ahead =
          spelledBehind behind ∨
        spelledBehind behind =
          lineBreak :: (Cursor.ofSource (script behind)).ahead := by
      rw [ahead_script]
      cases behind with
      | nil => exact Or.inl spellings_nil
      | cons line rest => exact Or.inr rfl
    have hahead' : (Cursor.ofSource (script (call :: behind))).ahead =
        spellings call ++ spelledBehind behind := by
      rw [ahead_script]
      exact spellings_line_behind hcall.stringsClosed behind
    obtain ⟨all', count, hall', hsame⟩ :=
      statements_behind_call hcall hY hahead hahead' rfl hall
    have hempty := hsame .empty
    rw [empty_renumber] at hempty
    exact ⟨_, strictMono_raise _ count,
      parse_of_statements hall hall' hempty hs⟩
  · -- The lines in front are read in both scripts.
    obtain ⟨first, hfirst⟩ := hfront.parses
    obtain ⟨high, _, hmirrors⟩ := mirrors_statements _ hfirst
    obtain ⟨xs, c, hpasses, _, hc, hcount, halike⟩ :=
      hmirrors _ 0 (.ofSource (script (front ++ behind))) hY
        ⟨by rw [ahead_script, ahead_script,
          spellings_joined hne hfront.stringsClosed], rfl⟩
    obtain ⟨xs', c', hpasses', _, hc', hcount', halike'⟩ :=
      hmirrors (lineBreak :: (spellings call ++ spelledBehind behind)) 0
        (.ofSource (script (front ++ call :: behind)))
        (fun s hs => by cases hs; rfl)
        ⟨by rw [ahead_script, ahead_script, ahead_insert hne hfront hcall],
          rfl⟩
    obtain ⟨token, rest, hbreak, hrest, hcountRest⟩ := passes_lineBreak hc'
    -- Behind them only the call makes a difference.
    obtain ⟨ys, hys⟩ : ∃ ys, statements c = .ok ys := by
      unfold Passes at hpasses
      rw [hpasses] at hall
      cases hc : statements c with
      | ok ys => exact ⟨ys, rfl⟩
      | error fault =>
          rw [hc] at hall
          cases hall
    have hid : rest.nextId = c.nextId := by rw [hcountRest, hcount', hcount]
    obtain ⟨ys', count, hys', hsame⟩ :=
      statements_behind_call hcall hY (Or.inl hc) hrest hid hys
    refine ⟨_, strictMono_raise c.nextId count,
      parse_of_statements (hpasses.ok hys)
        (hpasses'.ok (hbreak.ok hys')) ?_ hs⟩
    have hxs := halike id (fun _ _ _ => rfl) .empty
    rw [strategy_renumber_id, strategy_renumber_id] at hxs
    have hxs' := halike' (raise c.nextId count) (fun i _ hi => by
      unfold raise
      rw [if_pos (by rw [hcount]; exact hi)]
      rfl) .empty
    rw [empty_renumber] at hxs'
    rw [List.foldl_append, List.foldl_append, List.foldl_append, hxs', hxs]
    exact hsame _

/-! ## A script with such a line -/

/-- A line in which the name of an indicator starts an expression. -/
def plotLine : List Char :=
  "plot(ta.tr + nz(fast), default=true)".toList

def fastLine : List Char :=
  "fast = ta.ema(close, 3)".toList

def slowLine : List Char :=
  "slow = ta.ema(fast, 9)".toList

theorem callLine_plotLine : CallLine QuietLabel plotLine := by
  constructor
  · unfold StringsClosed
    decide +kernel
  · have hspelled : spellings plotLine =
        [(.builtinFunction, "plot"), (.leftParen, "("),
          (.builtinFunction, "ta.tr"), (.plus, "+"), (.builtinFunction, "nz"),
          (.leftParen, "("), (.identifier, "fast"), (.rightParen, ")"),
          (.comma, ","), (.keyword, "default"), (.assign, "="),
          (.boolean, "true"), (.rightParen, ")")] := by
      decide +kernel
    refine ⟨_, _, _, hspelled, rfl, by unfold Unmarked; decide, ?_⟩
    have hplus : Level.additive.operator? .plus = some .add := rfl
    have hnz : Unmarked "nz" := by
      unfold Unmarked
      decide
    have hdefault : QuietLabel (.keyword, "default") := ⟨rfl, by decide⟩
    exact .arguments
      (.positional (.expression (.primary (.name rfl))
        (.binary hplus (.primary (.call rfl hnz (.arguments
          (.positional (.expression (.primary (.name rfl)) .ended))
          (.closed rfl)))) .ended)))
      (.further rfl (.named (Or.inr rfl) hdefault
        (.expression (.primary (.constant (Or.inr (Or.inr rfl)))) .ended))
        (.closed rfl))

/-- A line between two others. The call in it takes the number of the call
behind it. -/
theorem parse_insert_call_plotLine :
    CallLine QuietLabel plotLine ∧ MayStart [fastLine] ∧
      ∃ s, Strategy.parse (script ([fastLine] ++ [slowLine])) = .ok s ∧
        ∃ f : Nat → Nat, StrictMono f ∧
          Strategy.parse (script ([fastLine] ++ plotLine :: [slowLine])) =
            .ok (s.renumber f) := by
  have hfront : MayStart [fastLine] := by
    constructor
    · unfold StringsClosed
      decide +kernel
    · have hparses : (statementsOf (script [fastLine])).toBool = true := by
        decide +kernel
      exact exists_ok_of_toBool hparses
  have hparses : (Strategy.parse
      (script ([fastLine] ++ [slowLine]))).toBool = true := by
    decide +kernel
  refine ⟨callLine_plotLine, hfront, ?_⟩
  obtain ⟨s, hs⟩ := exists_ok_of_toBool hparses
  exact ⟨s, hs, parse_insert_call [fastLine] [slowLine]
    callLine_plotLine hfront hs⟩

/-! ## A name that starts a statement -/

/-- A line with a title. -/
def titledLine : List Char :=
  "plot(close, title=\"x\")".toList

theorem callLine_titledLine : CallLine (fun _ => True) titledLine := by
  constructor
  · unfold StringsClosed
    decide +kernel
  · have hspelled : spellings titledLine =
        [(.builtinFunction, "plot"), (.leftParen, "("),
          (.builtinVariable, "close"), (.comma, ","), (.identifier, "title"),
          (.assign, "="), (.string, "x"), (.rightParen, ")")] := by
      decide +kernel
    refine ⟨_, _, _, hspelled, rfl, by unfold Unmarked; decide, ?_⟩
    exact .arguments
      (.positional (.expression (.primary (.name rfl)) .ended))
      (.further rfl (.named (Or.inl rfl) trivial
        (.expression (.primary (.constant (Or.inr (Or.inl rfl)))) .ended))
        (.closed rfl))

/-- **Not every name of an argument is harmless.** In a call that is no
statement it defines a variable. -/
theorem named_argument_defines :
    ¬ ∀ (front behind : List (List Char)) (call : List Char),
      CallLine (fun _ => True) call → MayStart front → ∀ s : Strategy,
        Strategy.parse (script (front ++ behind)) = .ok s →
          ∃ f : Nat → Nat, StrictMono f ∧
            Strategy.parse (script (front ++ call :: behind)) =
              .ok (s.renumber f) := by
  intro hclaim
  have hstart : statements (.ofSource (script [])) = .ok [] :=
    statements_of_ahead_nil ((ahead_script []).trans spellings_nil)
  have hempty : Strategy.parse (script []) = .ok .empty := by
    unfold Strategy.parse statementsOf
    rw [hstart]
    rfl
  have hclosed : StringsClosed (joined []) := by
    unfold StringsClosed
    decide +kernel
  obtain ⟨f, _, hparse⟩ := hclaim [] [] titledLine callLine_titledLine
    ⟨hclosed, [], hstart⟩ .empty hempty
  have hnames : (Strategy.parse (script [titledLine])).toOption.map
      (fun s => s.definitions.keys) = some ["title"] := by
    decide +kernel
  have hparse : Strategy.parse (script [titledLine]) =
      .ok (Strategy.empty.renumber f) := hparse
  rw [hparse, empty_renumber] at hnames
  exact absurd hnames (by decide)

end Barscript.Script
