import Barscript.Proofs.Script.Identities
import Barscript.Proofs.Script.Inert
import Barscript.Proofs.Script.Relocation

/-!
# Scripts one behind the other

A script that parses and leaves no string open ends where its last line ends:
with another script in the lines behind it, the two are read one after the
other (`parse_join`). The statements of the second are found further down and
behind the calls of the first, and the two strategies are put together; or else
the fault of the second is found further down.
-/

namespace Barscript.Script

/-! ## Tokens further down -/

/-- The place behind some pieces. -/
def Place.behind (place : Place) (pieces : List Lexeme) : Place :=
  pieces.foldl Place.after place

theorem after_below (n : Nat) (place : Place) (piece : Lexeme) :
    (place.below n).after piece = (place.after piece).below n := by
  cases piece with
  | newline =>
      unfold Place.below Place.after
      rw [Nat.add_right_comm]
  | _ => rfl

theorem behind_below (n : Nat) (place : Place) (pieces : List Lexeme) :
    (place.below n).behind pieces = (place.behind pieces).below n := by
  induction pieces generalizing place with
  | nil => rfl
  | cons piece rest ih =>
      show ((place.below n).after piece).behind rest = _
      rw [after_below]
      exact ih (place.after piece)

/-- The tokens of some pieces without the mark at the end. -/
def spelledFrom (place : Place) : List Lexeme → List Token
  | [] => []
  | piece :: rest =>
    match piece.token? with
    | some (kind, value) =>
      ⟨kind, value, place⟩ :: spelledFrom (place.after piece) rest
    | none => spelledFrom (place.after piece) rest

theorem tokensFrom_eq (place : Place) (pieces : List Lexeme) :
    tokensFrom place pieces = spelledFrom place pieces ++
      [⟨.endOfInput, "", place.behind pieces⟩] := by
  induction pieces generalizing place with
  | nil => rfl
  | cons piece rest ih =>
      rw [tokensFrom, spelledFrom]
      cases piece.token? with
      | none => exact ih (place.after piece)
      | some spelling => exact congrArg _ (ih (place.after piece))

theorem spelledFrom_append (place : Place) (xs ys : List Lexeme) :
    spelledFrom place (xs ++ ys) =
      spelledFrom place xs ++ spelledFrom (place.behind xs) ys := by
  induction xs generalizing place with
  | nil => rfl
  | cons piece rest ih =>
      rw [List.cons_append, spelledFrom, spelledFrom]
      cases piece.token? with
      | none => exact ih (place.after piece)
      | some spelling => exact congrArg _ (ih (place.after piece))

theorem spelledFrom_below (n : Nat) (place : Place) (pieces : List Lexeme) :
    spelledFrom (place.below n) pieces =
      (spelledFrom place pieces).map (Token.below n) := by
  induction pieces generalizing place with
  | nil => rfl
  | cons piece rest ih =>
      rw [spelledFrom, spelledFrom, after_below, ih]
      cases piece.token? <;> rfl

/-! ## Cursors -/

/-- The last line of a source. -/
def lastLine (source : String) : Nat :=
  (Cursor.ofSource source).finish.line

theorem ofSource_eq (source : String) :
    Cursor.ofSource source =
      ⟨spelledFrom .start (lexemes source.toList),
        Place.start.behind (lexemes source.toList), 0⟩ := by
  unfold Cursor.ofSource tokens
  rw [tokensFrom_eq]
  simp

/-- Behind a source and the end of its last line another source is found
further down. -/
theorem ofSource_join {a : String} (ha : StringsClosed a.toList) (b : String) :
    ∃ token : Token, token.kind = .newline ∧
      (Cursor.ofSource (a ++ "\n" ++ b)).pending =
        (Cursor.ofSource a).pending ++ token ::
          (Cursor.ofSource b).pending.map (Token.below (lastLine a)) ∧
      (Cursor.ofSource (a ++ "\n" ++ b)).finish =
        (Cursor.ofSource b).finish.below (lastLine a) := by
  have hlexemes : lexemes (a ++ "\n" ++ b).toList =
      lexemes a.toList ++ .newline :: lexemes b.toList := by
    rw [String.toList_append, String.toList_append, List.append_assoc]
    exact lexemes_line ha b.toList
  -- Behind the end of the line the second source starts in the first column.
  have hstart : (Place.start.behind (lexemes a.toList)).after .newline =
      Place.start.below (lastLine a) := by
    unfold lastLine Place.below Place.after
    rw [ofSource_eq]
    exact congrArg (Place.mk · 1) (Nat.add_comm _ _)
  refine ⟨⟨.newline, "\n", Place.start.behind (lexemes a.toList)⟩, rfl, ?_, ?_⟩
  · rw [ofSource_eq, ofSource_eq a, ofSource_eq b, hlexemes,
      spelledFrom_append, ← spelledFrom_below, ← hstart]
    rfl
  · rw [ofSource_eq, ofSource_eq b, hlexemes, ← behind_below, ← hstart]
    exact List.foldl_append

/-- What is left of the tokens of a cursor is known from its length. -/
theorem Cursor.Leads.pending_eq {c rest : Cursor} (h : c.Leads rest)
    {left : List Token} (hleft : left <:+ c.pending)
    (hlength : rest.pending.length = left.length) : rest.pending = left :=
  (List.suffix_of_suffix_length_le h.suffix hleft
    (Nat.le_of_eq hlength)).eq_of_length hlength

/-- A script that parses is read in front of another one, which is left behind
the end of the line. -/
theorem passes_ofSource {a : String} (ha : StringsClosed a.toList)
    {all : List Statement} (hall : statementsOf a = .ok all) :
    ∃ count, ∀ b : String, ∃ xs,
      Passes (.ofSource (a ++ "\n" ++ b)) xs
          ((Cursor.ofSource b).below (lastLine a) count) ∧
        xs.foldl Strategy.add .empty = all.foldl Strategy.add .empty := by
  obtain ⟨count, _, hmirrors⟩ := mirrors_statements _ hall
  refine ⟨count, fun b => ?_⟩
  obtain ⟨token, hkind, hpending, hfinish⟩ := ofSource_join ha b
  have hahead : (Cursor.ofSource (a ++ "\n" ++ b)).ahead =
      (Cursor.ofSource a).ahead ++ lineBreak :: (Cursor.ofSource b).ahead := by
    rw [ahead_ofSource, ahead_ofSource, ahead_ofSource, String.toList_append,
      String.toList_append, List.append_assoc]
    exact spellings_line ha b.toList
  obtain ⟨xs, c, hpasses, hleads, hc, hcount, halike⟩ :=
    hmirrors (lineBreak :: (Cursor.ofSource b).ahead) 0 _
      (fun s hs => by cases hs; rfl) ⟨hahead, rfl⟩
  -- The second source is left, with the end of the line in front.
  have hleft : c.pending = token ::
      (Cursor.ofSource b).pending.map (Token.below (lastLine a)) := by
    refine hleads.pending_eq ?_ ?_
    · rw [hpending]
      exact List.suffix_append _ _
    · have hlength := congrArg List.length hc
      unfold Cursor.ahead at hlength
      rw [List.length_map, List.length_cons, List.length_map] at hlength
      rw [hlength, List.length_cons, List.length_map]
  have hrest : c.leaving ((Cursor.ofSource b).pending.map
      (Token.below (lastLine a))) =
        (Cursor.ofSource b).below (lastLine a) count := by
    have hzero : (Cursor.ofSource b).nextId = 0 := rfl
    unfold Cursor.leaving Cursor.below
    rw [hleads.finish, hfinish, hcount, hzero, Nat.add_comm count 0]
  refine ⟨xs ++ [.passedOver token], ?_, ?_⟩
  · rw [← hrest]
    exact hpasses.trans (passes_newline hleft hkind)
  · have hsame := halike id (fun _ _ _ => rfl) .empty
    rw [strategy_renumber_id, strategy_renumber_id] at hsame
    rw [List.foldl_append, hsame]
    rfl

/-! ## Strategies -/

/-- The third strategy lists what the first and then what the second lists, and
of the definitions of a name the second wins. -/
structure Strategy.Joins (s t joined : Strategy) : Prop where
  entries : joined.entries = s.entries ++ t.entries
  exits : joined.exits = s.exits ++ t.exits
  indicators : joined.indicators = s.indicators ++ t.indicators
  definitions : ∀ name : String,
    joined.definitions[name]? = t.definitions[name]?.or s.definitions[name]?

theorem definitions_foldl_add (all : List Statement) (s : Strategy)
    (name : String) :
    (all.foldl Strategy.add s).definitions[name]? =
      (Strategy.ofStatements all).definitions[name]?.or
        s.definitions[name]? := by
  have hnone : Strategy.empty.definitions[name]? = none :=
    Std.ExtTreeMap.getElem?_empty
  unfold Strategy.ofStatements
  induction all generalizing s with
  | nil =>
      show _ = (Strategy.empty.definitions[name]?).or _
      rw [hnone]
      rfl
  | cons x rest ih =>
      rw [List.foldl_cons, List.foldl_cons, ih (s.add x),
        ih (Strategy.empty.add x), Option.or_assoc]
      congr 1
      rcases assignment_or_definitions x with ⟨key, value, rfl⟩ | hsame
      · rw [definitions_assignment, definitions_assignment,
          Std.ExtTreeMap.getElem?_insert, Std.ExtTreeMap.getElem?_insert,
          hnone]
        split <;> rfl
      · rw [hsame, hsame, hnone]
        rfl

/-- More statements join what they say to a strategy. -/
theorem joins_foldl_add (s : Strategy) (all : List Statement) :
    s.Joins (.ofStatements all) (all.foldl Strategy.add s) where
  entries := by
    unfold Strategy.ofStatements
    rw [foldl_add Strategy.entries _ fun s x => (rules_add s x).1,
      foldl_add Strategy.entries _ fun s x => (rules_add s x).1]
    rfl
  exits := by
    unfold Strategy.ofStatements
    rw [foldl_add Strategy.exits _ fun s x => (rules_add s x).2,
      foldl_add Strategy.exits _ fun s x => (rules_add s x).2]
    rfl
  indicators := by
    unfold Strategy.ofStatements
    rw [foldl_add Strategy.indicators _ indicators_add,
      foldl_add Strategy.indicators _ indicators_add]
    rfl
  definitions := definitions_foldl_add all s

/-- **Scripts are read one after the other.** Behind a script that parses and
leaves no string open, in the next line, another script is read as it is read
alone: its error is found further down, by the lines of the first script; and
without one the two strategies are joined, with the identities of its calls
raised by the same number for any script. -/
theorem parse_join {a : String} (ha : StringsClosed a.toList) {s : Strategy}
    (hs : Strategy.parse a = .ok s) :
    ∃ count, ∀ b : String,
      match Strategy.parse b with
      | .ok t => ∃ joined, Strategy.parse (a ++ "\n" ++ b) = .ok joined ∧
          s.Joins (t.renumber (· + count)) joined
      | .error e =>
          Strategy.parse (a ++ "\n" ++ b) = .error (e.below (lastLine a)) := by
  obtain ⟨all, hall, rfl⟩ := statements_of_parse hs
  obtain ⟨count, hpasses⟩ := passes_ofSource ha hall
  refine ⟨count, fun b => ?_⟩
  obtain ⟨xs, hxs, hsame⟩ := hpasses b
  have hstatements : statementsOf (a ++ "\n" ++ b) =
      (statements ((Cursor.ofSource b).below (lastLine a) count)).map
        (xs ++ ·) := hxs
  rw [moved_statements] at hstatements
  unfold Strategy.parse
  rw [hstatements]
  cases hb : statementsOf b with
  | error fault =>
      have hb : statements (.ofSource b) = .error fault := hb
      rw [hb]
      exact congrArg Except.error (toError_below fault)
  | ok ys =>
      have hb : statements (.ofSource b) = .ok ys := hb
      rw [hb]
      refine ⟨_, rfl, ?_⟩
      have hsecond : (Strategy.ofStatements ys).renumber (· + count) =
          .ofStatements (ys.map (Statement.below (lastLine a) count)) := by
        unfold Strategy.ofStatements
        rw [← foldl_add_below (n := lastLine a), empty_renumber]
      have hfirst : Strategy.ofStatements
          (xs ++ ys.map (Statement.below (lastLine a) count)) =
            (ys.map (Statement.below (lastLine a) count)).foldl
              Strategy.add (.ofStatements all) := by
        unfold Strategy.ofStatements
        rw [List.foldl_append, hsame]
      show (Strategy.ofStatements all).Joins
        ((Strategy.ofStatements ys).renumber (· + count))
        (.ofStatements (xs ++ ys.map (Statement.below (lastLine a) count)))
      rw [hsecond, hfirst]
      exact joins_foldl_add _ _

/-- Two lines with a variable. -/
def frontScript : String :=
  "fast = ta.ema(close, 3)\nplot(fast, ta.tr)"

/-- A script that defines this variable again and reads it. -/
def behindScript : String :=
  "slow = ta.ema(fast, 9)\nfast = nz(slow)\nstrategy.entry(\"L\", strategy.long, when=ta.crossover(fast, slow))"

/-- A script in which an operand is missing. -/
def faultyScript : String :=
  "slow = ta.ema(fast, 9)\nfast = nz(slow +"

/-- The one is joined to the two lines, the error of the other is two lines
further down. -/
theorem parse_join_frontScript :
    ∃ s t joined count e, Strategy.parse frontScript = .ok s ∧
      Strategy.parse behindScript = .ok t ∧
      Strategy.parse (frontScript ++ "\n" ++ behindScript) = .ok joined ∧
      s.Joins (t.renumber (· + count)) joined ∧
      Strategy.parse faultyScript = .error e ∧
      Strategy.parse (frontScript ++ "\n" ++ faultyScript) =
        .error (e.below 2) := by
  have hclosed : StringsClosed frontScript.toList := by
    unfold StringsClosed
    decide +kernel
  have hparses : (Strategy.parse frontScript).toBool = true ∧
      (Strategy.parse behindScript).toBool = true ∧
      (Strategy.parse faultyScript).toBool = false := by
    decide +kernel
  have hline : lastLine frontScript = 2 := by
    decide +kernel
  obtain ⟨hfront, hbehind, hfaulty⟩ := hparses
  obtain ⟨s, hs⟩ := exists_ok_of_toBool hfront
  obtain ⟨t, ht⟩ := exists_ok_of_toBool hbehind
  obtain ⟨count, hjoin⟩ := parse_join hclosed hs
  have hgood := hjoin behindScript
  have hbad := hjoin faultyScript
  cases he : Strategy.parse faultyScript with
  | ok t' =>
      rw [he] at hfaulty
      cases hfaulty
  | error e =>
      rw [ht] at hgood
      rw [he, hline] at hbad
      obtain ⟨joined, hparse, hjoins⟩ := hgood
      exact ⟨s, t, joined, count, e, hs, ht, hparse, hjoins, rfl, hbad⟩

end Barscript.Script
