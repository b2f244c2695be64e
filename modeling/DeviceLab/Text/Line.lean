namespace DeviceLab.Text

/-- The lines of a text, given what has already been read of the current one in reverse. -/
def linesFrom (current : List Char) : List Char → List (List Char)
  | [] => if current.isEmpty then [] else [current.reverse]
  | '\n' :: rest =>
    let line := match current with
      | '\r' :: before => before.reverse
      | _ => current.reverse
    line :: linesFrom [] rest
  | c :: rest => linesFrom (c :: current) rest

/-- The lines of a text, without their line ends. -/
def lines (text : List Char) : List (List Char) :=
  linesFrom [] text

@[simp] theorem lines_nil : lines [] = [] := rfl

/-- The first line of a text, empty when the text is. -/
def firstLine (text : List Char) : List Char :=
  (lines text).head?.getD []

end DeviceLab.Text
