import CorrelatedInput.Terminal.Arguments
/-!
The commands of the program: planning a gesture, and showing or writing the settings.
-/
namespace CorrelatedInput.Terminal

inductive Plan where
  | click (place : Coordinate)
  | longTap (place : Coordinate)
  | swipe (start finish : Coordinate) (steps : UInt32)
  | path (points : List Coordinate) (steps : UInt32)
  /-- Two fingers move towards each other, or away from each other. -/
  | pinch (center : Coordinate) (span : Int32) (steps : UInt32) (outwards : Bool)
  | text (text : String)
  | key (code metaState : Int32)
deriving DecidableEq, Repr

inductive Invocation where
  /-- The events go to a file if one is named, and are printed if not. -/
  | plan (plan : Plan) (output : Option String)
  /-- Shows the settings, or writes the default ones. -/
  | settings (write : Bool)
deriving DecidableEq, Repr

/-! What may stand on the command line -/

def helpSwitch : Switch := ⟨"help", some 'h', .help⟩

def verboseSwitch : Switch := ⟨"verbose", some 'v', .flag⟩

def outputSwitch : Switch := ⟨"output", some 'o', .value .path⟩

def gestureCommand (name : String) (operands : List Operand) (switches : List (String × Role)) :
    Command :=
  .mk name
    (helpSwitch :: verboseSwitch :: outputSwitch ::
      switches.map fun (long, role) => ⟨long, none, role⟩)
    operands []

def numbers (names : List String) : List Operand := names.map fun name => ⟨name, .signed, false⟩

def gestureCommands : List Command :=
  [gestureCommand "click" (numbers ["x", "y"]) [],
    gestureCommand "long-tap" (numbers ["x", "y"]) [],
    gestureCommand "swipe" (numbers ["x1", "y1", "x2", "y2"]) [("steps", .value .unsigned)],
    gestureCommand "path" [⟨"points", .point, true⟩] [("steps", .value .unsigned)],
    gestureCommand "pinch" []
      [("center-x", .value .signed), ("center-y", .value .signed), ("span", .value .signed),
        ("steps", .value .unsigned), ("out", .flag)],
    gestureCommand "text" [⟨"text", .text, false⟩] [],
    gestureCommand "key" [⟨"code", .key, false⟩] [("meta", .value .signed)]]

def planCommand : Command :=
  .mk "plan" [helpSwitch, verboseSwitch, outputSwitch] [] gestureCommands

def configCommand : Command :=
  .mk "config" [helpSwitch, verboseSwitch, ⟨"init", none, .flag⟩] [] []

def rootCommand : Command :=
  .mk "uidrive" [helpSwitch, verboseSwitch, ⟨"version", some 'V', .version⟩] []
    [planCommand, configCommand]

def usage : String :=
  "uidrive: synthesize and correlate UI test input\n\n"
    ++ "  uidrive plan click X Y              plan a tap\n"
    ++ "  uidrive plan long-tap X Y           plan a long press\n"
    ++ "  uidrive plan swipe X1 Y1 X2 Y2      plan a straight swipe\n"
    ++ "  uidrive plan path X,Y X,Y ...       plan a swipe of several legs\n"
    ++ "  uidrive plan pinch                  plan a pinch of two fingers\n"
    ++ "  uidrive plan text TEXT              plan typed text\n"
    ++ "  uidrive plan key CODE               plan a key tap\n"
    ++ "  uidrive config [--init]             show or write the configuration\n"

def version : String := "uidrive 0.1.0\n"

/-! What it means -/

namespace Given

def data (name : String) (g : Given) : List Datum :=
  (g.filter fun e => e.1 = name).flatMap Prod.snd

def has (name : String) (g : Given) : Bool := g.any fun e => e.1 = name

def number? (name : String) (g : Given) : Option Int :=
  match data name g with
  | [.number n] => some n
  | _ => none

def text? (name : String) (g : Given) : Option String :=
  match data name g with
  | [.text s] => some s
  | _ => none

def points (name : String) (g : Given) : List Coordinate :=
  (data name g).filterMap fun d =>
    match d with
    | .point p => some p
    | _ => none

def signed? (name : String) (g : Given) : Option Int32 := Int32.ofInt <$> number? name g

/-- The number of steps, if it is given. -/
def steps (default : UInt32) (g : Given) : UInt32 :=
  ((number? "steps" g).map fun n => UInt32.ofNat n.toNat).getD default

def place? (x y : String) (g : Given) : Option Coordinate := do
  return ⟨← signed? x g, ← signed? y g⟩

end Given

/-- The gesture of a command, with the default for each option that is not given. -/
def Plan.ofGiven? (name : String) (g : Given) : Option Plan :=
  if name = "click" then .click <$> Given.place? "x" "y" g
  else if name = "long-tap" then .longTap <$> Given.place? "x" "y" g
  else if name = "swipe" then do
    return .swipe (← Given.place? "x1" "y1" g) (← Given.place? "x2" "y2" g) (Given.steps 10 g)
  else if name = "path" then some (.path (Given.points "points" g) (Given.steps 5 g))
  else if name = "pinch" then
    let center : Coordinate :=
      ⟨(Given.signed? "center-x" g).getD 540, (Given.signed? "center-y" g).getD 960⟩
    some (.pinch center ((Given.signed? "span" g).getD 300) (Given.steps 10 g)
      (Given.has "out" g))
  else if name = "text" then .text <$> Given.text? "text" g
  else if name = "key" then do
    return .key (← Given.signed? "code" g) ((Given.signed? "meta" g).getD 0)
  else none

/-- What the arguments of all commands on the line ask for. The output file may be named before or
after the gesture; if it is named in both places, the latter counts. -/
def Invocation.ofGiven? : List (String × Given) → Option Invocation
  | [_, ("plan", outer), (name, inner)] => do
    return .plan (← Plan.ofGiven? name inner)
      ((Given.text? "output" inner).or (Given.text? "output" outer))
  | [_, ("config", g)] => some (.settings (Given.has "init" g))
  | _ => none

def Invocation.ofArguments (args : List String) : Except Refusal Invocation := do
  match Invocation.ofGiven? (← parse rootCommand .fresh args) with
  | some invocation => return invocation
  | none => throw .missingArgument

end CorrelatedInput.Terminal
