namespace DeviceLab.Text

/-- `text` followed by spaces up to `width` characters; a longer text is kept whole. -/
def padRight (width : Nat) (text : String) : String :=
  text ++ String.ofList (List.replicate (width - text.length) ' ')

/-- Words in a line, one space between neighbours. -/
def spaced (words : List String) : String :=
  String.intercalate " " words

end DeviceLab.Text
