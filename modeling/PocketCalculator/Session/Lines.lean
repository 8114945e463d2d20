import PocketCalculator.Session.Basic
import PocketCalculator.Text.Lines
import PocketCalculator.Text.Utf8

/-!
# Calculating lines

An input that is no argument is calculated line by line. Blank lines are passed over. Each line is
read as text when its turn comes, so what stands before a line that is none is calculated and shown
all the same.
-/

namespace PocketCalculator

namespace Session

/-- The session that goes on with lines, after what calculations before them have left. -/
def ofLines (options : Options) (outcome : Outcome) : List Bytes → Session
  | [] => { outcome := outcome }
  | bytes :: rest =>
    match decodeUtf8? bytes with
    | none => { outcome := outcome, error := some .inputNotText }
    | some line =>
      if (trim line).isEmpty then ofLines options outcome rest
      else
        let calculation := calculate options line
        let session := ofLines options (outcome.add calculation) rest
        { session with lines := calculation.display :: session.lines }

def ofInput (options : Options) (input : Bytes) : Session :=
  ofLines options {} (splitLines 10 13 input)

section
variable {options : Options} {outcome : Outcome} {line : Text} {bytes : Bytes} (rest : List Bytes)

theorem ofLines_blank (hbytes : decodeUtf8? bytes = some line) (hblank : (trim line).isEmpty = true) :
    ofLines options outcome (bytes :: rest) = ofLines options outcome rest := by
  rw [ofLines, hbytes]
  exact if_pos hblank

theorem ofLines_expression (hbytes : decodeUtf8? bytes = some line)
    (hblank : ¬ (trim line).isEmpty = true) :
    ofLines options outcome (bytes :: rest) =
      { ofLines options (outcome.add (calculate options line)) rest with
        lines := (calculate options line).display ::
          (ofLines options (outcome.add (calculate options line)) rest).lines } := by
  rw [ofLines, hbytes]
  exact if_neg hblank

theorem ofLines_not_text (hbytes : decodeUtf8? bytes = none) :
    ofLines options outcome (bytes :: rest) =
      { outcome := outcome, error := some .inputNotText } := by
  rw [ofLines, hbytes]

end

end Session

end PocketCalculator
