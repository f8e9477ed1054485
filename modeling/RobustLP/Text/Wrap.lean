import RobustLP.Text.Characters

/-!
# Wrapped text

Text is cut into chunks, alternately words and runs of white space, and the chunks are filled into lines of a given
width. White space at the start of a line (the first one apart) and at its end is dropped; a word longer than a line
stands alone and is not broken.
-/

namespace RobustLP.Text

/-- Replaces tabs by blanks up to the next multiple of eight columns, and every other ASCII white space by one blank.
`column` counts from the last line feed or carriage return. -/
def expandBlanks : (column : Nat) → List Char → List Char
  | _, [] => []
  | column, c :: rest =>
    if c = '\t' then
      let width := 8 - column % 8
      List.replicate width ' ' ++ expandBlanks (column + width) rest
    else if c = '\n' || c = '\r' then ' ' :: expandBlanks 0 rest
    else if isAsciiBlank c then ' ' :: expandBlanks (column + 1) rest
    else c :: expandBlanks (column + 1) rest

/-- Cuts a text into words and runs of blanks. -/
def chunks (cs : List Char) : List (List Char) := cs.splitBy fun a b => (a == ' ') == (b == ' ')

/-- Takes chunks as long as they fit into `width`, given that `used` characters are taken. -/
def takeFitting (width : Int) : (used : Nat) → List (List Char) → List (List Char) × List (List Char)
  | _, [] => ([], [])
  | used, c :: rest =>
    if (used + c.length : Int) ≤ width then
      let (line, left) := takeFitting width (used + c.length) rest
      (c :: line, left)
    else ([], c :: rest)

theorem takeFitting_length (width : Int) (used : Nat) (cs : List (List Char)) :
    (takeFitting width used cs).2.length ≤ cs.length := by
  induction cs generalizing used with
  | nil => simp [takeFitting]
  | cons c rest ih =>
    simp only [takeFitting]
    split
    · exact Nat.le_trans (ih _) (Nat.le_succ _)
    · simp

/-- Nothing but white space. -/
def allBlank (cs : List Char) : Bool := cs.all isBlank

/-- One line: the chunks that fit, or the first chunk alone if it is longer than a line. -/
def takeLine (width : Int) : List (List Char) → List (List Char) × List (List Char)
  | [] => ([], [])
  | c :: rest =>
    if (c.length : Int) ≤ width then
      let (line, left) := takeFitting width c.length rest
      (c :: line, left)
    else ([c], rest)

theorem takeLine_length (width : Int) (cs : List (List Char)) :
    (takeLine width cs).2.length ≤ cs.length - 1 := by
  cases cs with
  | nil => simp [takeLine]
  | cons c rest =>
    simp only [takeLine]
    split
    · exact takeFitting_length _ _ _
    · simp

/-- The chunks a line starts with: white space is dropped unless the line is the first one. -/
def lineStart (started : Bool) (cs : List (List Char)) : List (List Char) :=
  match cs with
  | [] => []
  | c :: rest => if started && allBlank c then rest else c :: rest

theorem takeLine_lineStart_length (width : Int) (started : Bool) (c : List Char) (cs : List (List Char)) :
    (takeLine width (lineStart started (c :: cs))).2.length < (c :: cs).length := by
  have h := takeLine_length width (lineStart started (c :: cs))
  have : (lineStart started (c :: cs)).length ≤ cs.length + 1 := by
    simp only [lineStart]
    split <;> simp
  simp only [List.length_cons]
  omega

/-- Drops a chunk of white space at the end. -/
def dropFinalBlank (line : List (List Char)) : List (List Char) :=
  match line.getLast? with
  | some c => if allBlank c then line.dropLast else line
  | none => line

/-- Fills lines with chunks: the first line is indented by `first`, all others by `rest`. -/
def fillLines (width : Int) (first rest : String) (started : Bool) : List (List Char) → List String
  | [] => []
  | c :: cs =>
    let indent := if started then rest else first
    let taken := takeLine (width - indent.length) (lineStart started (c :: cs))
    let line := dropFinalBlank taken.1
    if line.isEmpty then fillLines width first rest started taken.2
    else (indent ++ String.ofList line.flatten) :: fillLines width first rest true taken.2
termination_by cs => cs.length
decreasing_by all_goals exact takeLine_lineStart_length _ _ _ _

/-- **A text filled into lines of a width.** -/
def fill (width : Int) (first rest : String) (text : String) : String :=
  joinWith "\n" (fillLines width first rest false (chunks (expandBlanks 0 text.toList)))

end RobustLP.Text
