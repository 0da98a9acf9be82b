import Intercal.Naming

namespace Intercal

inductive Code where
  | e000 | e017 | e079 | e099 | e123 | e129 | e139 | e182 | e197 | e200 | e240 | e241 | e275 | e436 | e444
  | e533 | e555 | e562 | e579 | e632 | e633 | e777 | e778 | e998 | e1999 | e2001
  deriving DecidableEq

namespace Code

def all : List Code :=
  [.e000, .e017, .e079, .e099, .e123, .e129, .e139, .e182, .e197, .e200, .e240, .e241, .e275, .e436, .e444,
    .e533, .e555, .e562, .e579, .e632, .e633, .e777, .e778, .e998, .e1999, .e2001]

def number : Code → Nat
  | .e000 => 0
  | .e017 => 17
  | .e079 => 79
  | .e099 => 99
  | .e123 => 123
  | .e129 => 129
  | .e139 => 139
  | .e182 => 182
  | .e197 => 197
  | .e200 => 200
  | .e240 => 240
  | .e241 => 241
  | .e275 => 275
  | .e436 => 436
  | .e444 => 444
  | .e533 => 533
  | .e555 => 555
  | .e562 => 562
  | .e579 => 579
  | .e632 => 632
  | .e633 => 633
  | .e777 => 777
  | .e778 => 778
  | .e998 => 998
  | .e1999 => 1999
  | .e2001 => 2001

def ofNumber? (n : Nat) : Option Code := all.find? (·.number == n)

/-- The canned text. `E000` has none: it echoes the statement. -/
def canned : Code → String
  | .e000 => ""
  | .e017 => "DO YOU EXPECT ME TO FIGURE THIS OUT?"
  | .e079 => "PROGRAMMER IS INSUFFICIENTLY POLITE"
  | .e099 => "PROGRAMMER IS OVERLY POLITE"
  | .e123 => "PROGRAM HAS DISAPPEARED INTO THE BLACK LAGOON"
  | .e129 => "PROGRAM HAS GOTTEN LOST ON THE WAY TO"
  | .e139 => "I WASN'T PLANNING TO GO THERE ANYWAY"
  | .e182 => "YOU MUST LIKE THIS LABEL A LOT!"
  | .e197 => "SO!  65535 LABELS AREN'T ENOUGH FOR YOU?"
  | .e200 => "NOTHING VENTURED, NOTHING GAINED"
  | .e240 => "ERROR HANDLER PRINTED SNIDE REMARK"
  | .e241 => "VARIABLES MAY NOT BE STORED IN WEST HYPERSPACE"
  | .e275 => "DON'T BYTE OFF MORE THAN YOU CAN CHEW"
  | .e436 => "THROW STICK BEFORE RETRIEVING!"
  | .e444 => "IT CAME FROM BEYOND SPACE"
  | .e533 => "YOU WANT MAYBE WE SHOULD IMPLEMENT 64-BIT VARIABLES?"
  | .e555 => "FLOW DIAGRAM IS EXCESSIVELY CONNECTED"
  | .e562 => "I DO NOT COMPUTE"
  | .e579 => "WHAT BASE AND/OR LANGUAGE INCLUDES"
  | .e632 => "THE NEXT STACK RUPTURES.  ALL DIE.  OH, THE EMBARRASSMENT!"
  | .e633 => "PROGRAM FELL OFF THE EDGE ON THE WAY TO THE NEW WORLD"
  | .e777 => "A SOURCE IS A SOURCE, OF COURSE, OF COURSE"
  | .e778 => "UNEXPLAINED COMPILER BUG"
  | .e998 => "EXCUSE ME, YOU MUST HAVE ME CONFUSED WITH SOME OTHER COMPILER"
  | .e1999 => "DOUBLE OR SINGLE PRECISION OVERFLOW"
  | .e2001 => "DON'T GET MUCH CALL FOR THOSE ROUND THESE PARTS"

def write (c : Code) : String :=
  let digits := toString c.number
  "E" ++ String.ofList (List.replicate (3 - digits.length) '0') ++ digits

end Code

inductive Phase where
  | compile
  | runtime
  | io
  | config
  deriving DecidableEq

def Phase.write : Phase → String
  | .compile => "Compile Error"
  | .runtime => "Runtime Error"
  | .io => "I/O Error"
  | .config => "Config Error"

structure Location where
  line : Nat
  column : Nat
  file : Option String := none
  deriving DecidableEq

def Location.write (l : Location) : String :=
  let place := toString l.line ++ ":" ++ toString l.column
  match l.file with
  | some file => file ++ ":" ++ place
  | none => place

/-- `trace` holds the pending labels, most recently nexted first. -/
structure Diagnostic where
  phase : Phase
  code : Code
  message : String
  location : Option Location := none
  source : Option String := none
  trace : List Nat := []
  help : Option String := none
  note : Option String := none
  deriving DecidableEq

namespace Diagnostic

def messageOf (c : Code) (detail : String) : String :=
  if c.canned = "" then detail
  else if detail = "" then c.canned
  else c.canned ++ " " ++ detail

def of (phase : Phase) (code : Code) (detail : String) : Diagnostic :=
  { phase, code, message := messageOf code detail }

def located (d : Diagnostic) (l : Location) : Diagnostic := { d with location := some l }

def orLocated (d : Diagnostic) (l : Location) : Diagnostic :=
  match d.location with
  | some _ => d
  | none => d.located l

def inFile (d : Diagnostic) (file : String) : Diagnostic :=
  { d with location := d.location.map fun l => { l with file := some (l.file.getD file) } }

/-- Adds the pending labels to a diagnostic that brings none of its own. -/
def orTraced (d : Diagnostic) (labels : List Label) : Diagnostic :=
  if d.trace.isEmpty then { d with trace := labels.map (·.value) } else d

def reset : String := "\x1b[0m"

/-- A text in a style. The style is taken up again after every end of a span inside the text. -/
def paint (color : Bool) (style : String) (text : String) : String :=
  if color then
    let start := "\x1b[" ++ style ++ "m"
    start ++ text.replace reset (reset ++ start) ++ reset
  else
    text

def render (color : Bool) (d : Diagnostic) : String :=
  let blue := paint color "94"
  let head := paint color "1;31" d.code.write ++ " " ++ paint color "1" d.message ++ "\n"
  let place := match d.location with
    | some l => blue ("  --> " ++ l.write ++ " (" ++ d.phase.write ++ ")") ++ "\n"
    | none => ""
  let source := match d.source with
    | some text => "   " ++ blue "|" ++ " " ++ text ++ "\n"
    | none => ""
  let trace := String.join (d.trace.map fun n => "   at " ++ Label.writeRaw n ++ "\n")
  let remark (style name : String) : Option String → String
    | some text => "   " ++ paint color style "=" ++ " " ++ paint color style (name ++ ": " ++ text) ++ "\n"
    | none => ""
  head ++ place ++ source ++ trace ++ remark "93" "help" d.help ++ remark "96" "note" d.note

end Diagnostic

end Intercal
