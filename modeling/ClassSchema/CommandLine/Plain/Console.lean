import ClassSchema.CommandLine.Console
import ClassSchema.CommandLine.Plain.Markup
import ClassSchema.CommandLine.Plain.Table

namespace ClassSchema

def Text.line (s : String) : String := String.ofList (expandTabs 0 s.toList ++ ['\n'])

/-- A console without colours and emoji codes, on which every line has room. -/
def Console.plain : Console where
  escape := Markup.escape
  shown s := (Markup.shown s).mapError MarkupFault.message
  lines _ := Text.line
  table := Table.text

end ClassSchema
