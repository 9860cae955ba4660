import CorrelatedInput.Proofs.Gesture.Ending
import CorrelatedInput.Proofs.Terminal.Arguments
import CorrelatedInput.Proofs.Terminal.Plan
import CorrelatedInput.Proofs.Text.Line
/-!
Gestures whose places are written on the command line. Every place can be planned, behind two
dashes. Without them it can be planned only if no word begins with a dash, for a word that does is
taken for an option, and no option is a digit.
-/
namespace CorrelatedInput.Terminal

/-! Numbers and points as words -/

def spell (n : Int32) : String := String.ofList (Text.writeInt n.toInt)

def spellPoint (p : Coordinate) : String :=
  String.ofList (Text.writeInt p.x.toInt ++ ',' :: Text.writeInt p.y.toInt)

theorem readSigned?_writeInt (n : Int32) : readSigned? (Text.writeInt n.toInt) = some n.toInt := by
  have word : -2147483648 ≤ n.toInt ∧ n.toInt ≤ 2147483647 := fits_toInt n
  rw [readSigned?, Text.readIntWithin?, Text.readInt?_writeInt, Option.filter_some,
    if_pos (decide_eq_true word)]

theorem trim_writeInt (n : Int) : Text.trim (Text.writeInt n) = Text.writeInt n := by
  have solid : ∀ c ∈ Text.writeInt n, Text.isBlank c = false := by
    intro c hc
    rcases Text.mem_writeInt hc with rfl | digit
    · decide
    · simp only [Text.isDigit, Bool.and_eq_true, decide_eq_true_eq, Char.le_def] at digit
      have low : 48 ≤ c.toNat := digit.1
      have high : c.toNat ≤ 57 := digit.2
      simp only [Text.isBlank, Bool.or_eq_false_iff, Bool.and_eq_false_iff, decide_eq_false_iff_not]
      omega
  apply Text.trim_eq_self
  · intro c hc
    exact solid c (List.mem_of_mem_head? hc)
  · intro c hc
    exact solid c (List.mem_of_mem_getLast? hc)

theorem readPoint?_spell (p : Coordinate) :
    readPoint? (Text.writeInt p.x.toInt ++ ',' :: Text.writeInt p.y.toInt) = some p := by
  have whole : ∀ c ∈ Text.writeInt p.x.toInt, (decide (c ≠ ',')) = true := by
    intro c hc
    rcases Text.mem_writeInt hc with rfl | digit
    · decide
    · rw [decide_eq_true_eq]
      rintro rfl
      exact absurd digit (by decide)
  have front : (Text.writeInt p.x.toInt ++ ',' :: Text.writeInt p.y.toInt).takeWhile (· ≠ ',') =
      Text.writeInt p.x.toInt := by
    rw [List.takeWhile_append_of_pos whole]
    simp
  have back : (Text.writeInt p.x.toInt ++ ',' :: Text.writeInt p.y.toInt).dropWhile (· ≠ ',') =
      ',' :: Text.writeInt p.y.toInt := by
    rw [List.dropWhile_append_of_pos whole]
    simp
  rw [readPoint?, front, back]
  simp [trim_writeInt, readSigned?_writeInt]

theorem read_spell (n : Int32) : Form.signed.read (spell n) = .ok (.number n.toInt) := by
  simp [Form.read, Form.read?, spell, readSigned?_writeInt]

theorem read_spellPoint (p : Coordinate) : Form.point.read (spellPoint p) = .ok (.point p) := by
  simp [Form.read, Form.read?, spellPoint, readPoint?_spell]

theorem isDashed_ofList (n : Int32) (rest : List Char) :
    isDashed (String.ofList (Text.writeInt n.toInt ++ rest)) = decide (n < 0) := by
  have zero : (0 : Int32).toInt = 0 := rfl
  rw [isDashed, String.toList_ofList, decide_eq_decide, Int32.lt_iff_toInt_lt, zero]
  rcases Text.writeInt_begins n.toInt with
    ⟨negative, d, ds, _, written⟩ | ⟨positive, d, ds, digit, written⟩
  · simp [written, negative]
  · have other : d ≠ '-' := by
      rintro rfl
      exact absurd digit (by decide)
    simp [written, other, positive]

theorem isNumeric_ofList (n : Int32) (rest : List Char) :
    IsNumeric (String.ofList (Text.writeInt n.toInt ++ rest)) := by
  intro dashed
  rw [isDashed_ofList, decide_eq_true_eq, Int32.lt_iff_toInt_lt] at dashed
  rcases Text.writeInt_begins n.toInt with ⟨_, d, ds, digit, written⟩ | ⟨positive, _⟩
  · exact ⟨d, ds ++ rest, digit, by rw [String.toList_ofList, written]; rfl⟩
  · exact absurd dashed (Int.not_lt.mpr positive)

theorem isDashed_spell (n : Int32) : isDashed (spell n) = decide (n < 0) := by
  have first := isDashed_ofList n []
  rwa [List.append_nil] at first

theorem isNumeric_spell (n : Int32) : IsNumeric (spell n) := by
  have first := isNumeric_ofList n []
  rwa [List.append_nil] at first

theorem gestureCommand_leaf (name : String) (operands : List Operand)
    (switches : List (String × Role)) : (gestureCommand name operands switches).IsLeaf := by
  refine ⟨rfl, ?_⟩
  intro s hs letter short
  simp only [gestureCommand, Command.switches, List.mem_cons, List.mem_map] at hs
  rcases hs with rfl | rfl | rfl | ⟨_, _, rfl⟩
  · cases short
    decide
  · cases short
    decide
  · cases short
    decide
  · cases short

/-! The gestures -/

/-- A gesture with all its places, as far as it can be carried out. It has as many steps as it has
when nothing is said. -/
inductive Placed where
  | click (place : Coordinate)
  | longTap (place : Coordinate)
  | swipe (start finish : Coordinate) (fits : Motion.LegFits start finish)
  | path (first : Coordinate) (rest : List Coordinate)
    (fits : (first :: rest).IsChain Motion.LegFits)

namespace Placed

def plan : Placed → Plan
  | click place => .click place
  | longTap place => .longTap place
  | swipe start finish _ => .swipe start finish 10
  | path first rest _ => .path (first :: rest) 5

def first : Placed → Coordinate
  | click place | longTap place => place
  | swipe start _ _ => start
  | path first _ _ => first

def last : Placed → Coordinate
  | click place | longTap place => place
  | swipe _ finish _ => finish
  | path first rest _ => rest.getLastD first

/-- The command that plans the gesture. -/
def command : Placed → String
  | click _ => "click"
  | longTap _ => "long-tap"
  | swipe _ _ _ => "swipe"
  | path _ _ _ => "path"

/-- The words after the command, one for each number, or one for each point of a path. -/
def words : Placed → List String
  | click place | longTap place => [place.x, place.y].map spell
  | swipe start finish _ => [start.x, start.y, finish.x, finish.y].map spell
  | path first rest _ => (first :: rest).map spellPoint

/-- The numbers with which the words begin. -/
def leading : Placed → List Int32
  | click place | longTap place => [place.x, place.y]
  | swipe start finish _ => [start.x, start.y, finish.x, finish.y]
  | path first rest _ => (first :: rest).map Coordinate.x

def grammar : Placed → Command
  | click _ => gestureCommand "click" (numbers ["x", "y"]) []
  | longTap _ => gestureCommand "long-tap" (numbers ["x", "y"]) []
  | swipe _ _ _ =>
    gestureCommand "swipe" (numbers ["x1", "y1", "x2", "y2"]) [("steps", .value .unsigned)]
  | path _ _ _ => gestureCommand "path" [⟨"points", .point, true⟩] [("steps", .value .unsigned)]

def given : Placed → Given
  | click place | longTap place => [("x", [.number place.x.toInt]), ("y", [.number place.y.toInt])]
  | swipe start finish _ =>
    [("x1", [.number start.x.toInt]), ("y1", [.number start.y.toInt]),
      ("x2", [.number finish.x.toInt]), ("y2", [.number finish.y.toInt])]
  | path first rest _ => [("points", (first :: rest).map .point)]

variable (g : Placed)

theorem grammar_leaf : g.grammar.IsLeaf := by
  cases g <;> exact gestureCommand_leaf _ _ _

theorem words_numeric : ∀ word ∈ g.words, IsNumeric word := by
  intro word hw
  cases g with
  | click | longTap | swipe =>
    obtain ⟨n, _, rfl⟩ := List.mem_map.mp hw
    exact isNumeric_spell n
  | path =>
    obtain ⟨p, _, rfl⟩ := List.mem_map.mp hw
    exact isNumeric_ofList p.x _

theorem map_isDashed : g.words.map isDashed = g.leading.map fun n => decide (n < 0) := by
  have number : isDashed ∘ spell = fun n : Int32 => decide (n < 0) := funext isDashed_spell
  have point : isDashed ∘ spellPoint = fun p : Coordinate => decide (p.x < 0) :=
    funext fun p => isDashed_ofList p.x _
  cases g with
  | click | longTap | swipe => rw [words, leading, List.map_map, number]
  | path =>
    rw [words, leading, List.map_map, List.map_map, point]
    rfl

theorem any_isDashed : g.words.any isDashed = g.leading.any (· < 0) := by
  have every := congrArg (List.any · id) g.map_isDashed
  rwa [List.any_map, List.any_map] at every

theorem any_isDashed_take (k : Nat) :
    (g.words.take k).any isDashed = (g.leading.take k).any (· < 0) := by
  have every := congrArg (fun l => (l.take k).any id) g.map_isDashed
  rwa [← List.map_take, ← List.map_take, List.any_map, List.any_map] at every

/-- The words are taken as the numbers and points that they spell. -/
theorem takeAll_words : ∃ l, Level.fresh.takeAll g.grammar g.words = .ok l ∧
    l.finish g.grammar = .ok g.given := by
  cases g with
  | click place | longTap place =>
    exact Level.take_numbers read_spell [("x", place.x), ("y", place.y)] rfl (by simp) rfl
  | swipe start finish =>
    exact Level.take_numbers read_spell
      [("x1", start.x), ("y1", start.y), ("x2", finish.x), ("y2", finish.y)] rfl (by simp) rfl
  | path first rest =>
    exact ⟨.ofPoints spellPoint ⟨"points", .point, true⟩ (first :: rest),
      Level.takeAll_points rfl rfl [] (first :: rest),
      Level.finish_points rfl rfl read_spellPoint (List.cons_ne_nil first rest)⟩

theorem parse_plan (args : List String) :
    parse rootCommand .fresh ("plan" :: g.command :: args) =
      (fun given => ("uidrive", []) :: ("plan", []) :: given) <$> parse g.grammar .fresh args := by
  have outer : rootCommand.find? "plan" = some planCommand := rfl
  have inner : g.command ≠ "help" ∧ planCommand.find? g.command = some g.grammar := by
    cases g <;> exact ⟨by simp [command], rfl⟩
  rw [parse_command (by decide) outer, parse_command inner.1 inner.2]
  cases parse g.grammar .fresh args <;> rfl

theorem ofGiven?_given :
    Invocation.ofGiven? [("uidrive", []), ("plan", []), (g.command, g.given)] =
      some (.plan g.plan none) := by
  cases g with
  | click | longTap | swipe | path =>
    simp [Invocation.ofGiven?, Plan.ofGiven?, command, given, Given.place?, Given.points,
      Given.signed?, Given.number?, Given.data, Given.text?, Given.steps, plan]

/-- Where plans are performed, every gesture is handed over from its first event to its last. -/
theorem performance_completes (timing : Timing) (wall : Nat) :
    ∃ after events, performance g.plan timing wall = (.ok (.ok true), after) ∧
      ((Controller.fresh ⟨0, wall⟩).withTiming timing).Completed g.first g.last (stage timing)
        after events := by
  let c := (Controller.fresh ⟨0, wall⟩).withTiming timing
  let w : World := { stage timing with schedule := Schedule.ofDelays 0 [] }
  have tolerant (events : List InputEvent) : w.sink.accepts events = true :=
    Sink.accepts_of_tolerant _ events rfl
  obtain ⟨after, events, ran, completed⟩ : ∃ after events,
      w.run (g.plan.activity c) = (.ok (.ok true), after) ∧
        c.Completed g.first g.last w after events := by
    have succeeds {a : Activity Bool} {after : World} {events : List InputEvent}
        (ran : w.run a = (.ok (w.sink.accepts events), after)) :
        w.run (Except.ok <$> a : Activity (Except Failure Bool)) = (.ok (.ok true), after) := by
      rw [World.run_map, ran, tolerant]
      rfl
    cases g with
    | click place =>
      obtain ⟨after, events, ran, completed⟩ :=
        c.tap_completes w place c.timing.clickDuration.toNat (tolerant _)
      exact ⟨after, events, succeeds ran, completed⟩
    | longTap place =>
      obtain ⟨after, events, ran, completed⟩ :=
        c.tap_completes w place w.device.longPress (tolerant _)
      have asked : w.run (c.longTap place) = w.run (c.tap place w.device.longPress) := rfl
      exact ⟨after, events, succeeds (asked.trans ran), completed⟩
    | swipe start finish fits =>
      obtain ⟨after, events, ran, completed⟩ := c.swipe_completes w fits 10
      exact ⟨after, events, succeeds ran, completed⟩
    | path first rest fits =>
      obtain ⟨after, events, ran, completed⟩ := c.swipePath_completes w first fits 5
      rw [tolerant] at ran
      exact ⟨after, events, ran, completed⟩
  refine ⟨{ after.closeAll with schedule := [] }, events, ?_, ?_⟩
  · have result : (performance g.plan timing wall).1 = .ok (.ok true) := congrArg Prod.fst ran
    have ended : (performance g.plan timing wall).2 = { after.closeAll with schedule := [] } :=
      congrArg (fun r => { r.2.closeAll with schedule := [] }) ran
    exact Prod.ext result ended
  · exact ⟨completed.handed, completed.down, completed.up, completed.legal⟩

/-- The gesture was planned at its places: what is printed are events of which the first puts a
finger down at the first place, and the last lifts it at the last place. -/
def IsPlanned (result : Result) : Prop :=
  ∃ events time, result.ending = .printed (String.ofList (serializeEvents events)) ∧
    parseEvents (serializeEvents events) = .ok events ∧
    events.head? = some (TouchSession.down ⟨0⟩ g.first) ∧
    events.getLast? = some (TouchSession.event ⟨0⟩ time .up g.last)

theorem runPlan_planned (timing : Timing) (wall : Nat) (s : Store) :
    g.IsPlanned (runPlan g.plan none timing wall s) := by
  obtain ⟨after, events, ended, completed⟩ := g.performance_completes timing wall
  have log := log_of_offers completed.handed
  refine ⟨events, Clock.stamp ⟨0, wall⟩ after.now, ?_, (serializeEvents_dressed events).parse,
    completed.down, completed.up⟩
  unfold performance at ended
  simp only [runPlan, ended, log, Sink.judged_events]

/-- What comes of words that are taken as they should be, unless one looks like an option. -/
theorem invocation_of_parse {args : List String} {last : Level} {dashed : Bool}
    (finished : last.finish g.grammar = .ok g.given)
    (parsed : parse g.grammar .fresh args = if dashed then .error .unknownArgument
      else (fun given => [(g.grammar.name, given)]) <$> last.finish g.grammar) :
    Invocation.ofArguments ("plan" :: g.command :: args) =
      if dashed then .error .unknownArgument else .ok (.plan g.plan none) := by
  have same : g.grammar.name = g.command := by cases g <;> rfl
  rw [Invocation.ofArguments, parse_plan, parsed, finished, same]
  cases dashed with
  | true => rfl
  | false =>
    have asked : (fun given => ("uidrive", []) :: ("plan", []) :: given) <$>
        (fun given => [(g.command, given)]) <$> Except.ok (ε := Refusal) g.given =
          .ok [("uidrive", []), ("plan", []), (g.command, g.given)] := rfl
    simp only [Bool.false_eq_true, if_false, asked, bind, Except.bind, ofGiven?_given]
    rfl

theorem run_of_invocation {args : List String} {dashed : Bool} (home : Settings.Home) (wall : Nat)
    (s : Store) (invoked : Invocation.ofArguments args =
      if dashed then .error .unknownArgument else .ok (.plan g.plan none)) :
    let result := run args home wall s
    if dashed then result.ending = .refused .unknownArgument ∧ result.store = s
    else g.IsPlanned result := by
  intro result
  cases dashed with
  | true =>
    have refused : result = ⟨.refused .unknownArgument, s, 0⟩ := by
      simp only [result, run, invoked, if_true]
    rw [if_pos rfl, refused]
    exact ⟨rfl, rfl⟩
  | false =>
    have planned : result = runPlan g.plan none (Settings.load home s).timing wall
        (prepareLog (Settings.load home s).logging s) := by
      simp only [result, run, invoked, Bool.false_eq_true, if_false]
    rw [if_neg Bool.false_ne_true, planned]
    exact g.runPlan_planned _ wall _

end Placed

/-- Which places can be planned from the command line. Behind two dashes all of them can: the
command is accepted, whatever the settings are, and plans the gesture at its places. Words before
the two dashes, or all of them if there are none, must not begin with a negative number, or else the
command is refused. -/
theorem places_are_planned (g : Placed) (home : Settings.Home) (wall : Nat) (s : Store) :
    (∀ k,
      let args := "plan" :: g.command :: (g.words.take k ++ "--" :: g.words.drop k)
      let result := run args home wall s
      if (g.leading.take k).any (· < 0) then
        result.ending = .refused .unknownArgument ∧ result.store = s
      else g.IsPlanned result) ∧
    let result := run ("plan" :: g.command :: g.words) home wall s
    if g.leading.any (· < 0) then result.ending = .refused .unknownArgument ∧ result.store = s
    else g.IsPlanned result := by
  have leaf := g.grammar_leaf
  obtain ⟨last, taken, finished⟩ := g.takeAll_words
  constructor
  · intro k
    have whole : g.words.take k ++ g.words.drop k = g.words := List.take_append_drop k g.words
    have numeric : ∀ word ∈ g.words.take k, IsNumeric word := fun word hw =>
      g.words_numeric word (List.mem_of_mem_take hw)
    have parsed := parse_separated leaf numeric (whole.symm ▸ taken)
    rw [g.any_isDashed_take] at parsed
    exact g.run_of_invocation home wall s (g.invocation_of_parse finished parsed)
  · have parsed := parse_plain leaf g.words_numeric taken
    rw [g.any_isDashed] at parsed
    exact g.run_of_invocation home wall s (g.invocation_of_parse finished parsed)

/-- A place to the left of the screen, behind two dashes. -/
theorem places_are_planned_offscreen :
    let home : Settings.Home := ⟨some "cfg", none⟩
    let args := ["plan", "click", "--", "-5", "7"]
    (Placed.click ⟨-5, 7⟩).IsPlanned (run args home 0 Store.empty) := by
  intro home args
  exact (places_are_planned (.click ⟨-5, 7⟩) home 0 Store.empty).1 0

/-- Without the dashes it cannot be planned. -/
theorem offscreen_place_is_refused :
    let home : Settings.Home := ⟨some "cfg", none⟩
    let g := Placed.click ⟨-5, 7⟩
    let result := run ("plan" :: g.command :: g.words) home 0 Store.empty
    g.words = ["-5", "7"] ∧ result.ending = .refused .unknownArgument ∧ ¬ g.IsPlanned result := by
  intro home g result
  have refused : result.ending = .refused .unknownArgument := by decide +kernel
  refine ⟨by decide +kernel, refused, ?_⟩
  rintro ⟨events, _, printed, _⟩
  rw [refused] at printed
  cases printed

end CorrelatedInput.Terminal
