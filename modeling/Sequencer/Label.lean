import Sequencer.Text.Blank
import Sequencer.Text.LowerCase

/-! Labels name places in a sequence. Two spellings that differ in case or in surrounding blanks
are the same label, and a blank text is none. -/

namespace Sequencer.Label

/-- The label that a text spells, if any. -/
def clean (text : String) : Option String :=
  match Text.trimList text.toList with
  | [] => none
  | c :: cs => some (String.ofList (Text.lowerList (c :: cs)))

/-- The label that an optional text spells. -/
def clean? (text : Option String) : Option String := text.bind clean

end Sequencer.Label
