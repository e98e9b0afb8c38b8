import SourceMend.Rule.Capture

/-!
Replacement templates. `$name` takes the longest run of letters, digits and underscores, `${...}`
takes what stands in the braces, `$$` is a dollar sign, and any other dollar sign is itself.
-/
namespace SourceMend.Template

def isNameChar (c : Char) : Bool := c.isAlphanum || c = '_'

/-- The references of a template, from left to right. -/
def refs (t : Text) : List CaptureRef :=
  match t with
  | [] => []
  | c :: cs =>
    if c ≠ '$' then refs cs
    else
      match cs with
      | '$' :: rest => refs rest
      | '{' :: rest =>
        if rest.contains '}' then
          let name := rest.takeWhile (· ≠ '}')
          CaptureRef.parse name :: refs (rest.drop (name.length + 1))
        else refs ('{' :: rest)
      | rest =>
        let name := rest.takeWhile isNameChar
        if name.isEmpty then refs rest
        else CaptureRef.parse name :: refs (rest.drop name.length)
termination_by t.length
decreasing_by all_goals (simp; try omega)

/-- Fills in a template; `value` gives the text of a reference. -/
def expand (value : CaptureRef → Text) (t : Text) : Text :=
  match t with
  | [] => []
  | '$' :: '$' :: rest => '$' :: expand value rest
  | '$' :: '{' :: rest =>
    let name := rest.takeWhile (· ≠ '}')
    if name.length < rest.length then
      value (CaptureRef.parse name) ++ expand value (rest.drop (name.length + 1))
    else '$' :: expand value ('{' :: rest)
  | c :: rest =>
    if c = '$' ∧ rest.head?.any isNameChar then
      let name := rest.takeWhile isNameChar
      value (CaptureRef.parse name) ++ expand value (rest.drop name.length)
    else c :: expand value rest
termination_by t.length
decreasing_by all_goals (simp only [List.length_cons, List.length_drop]; omega)

/-- The text of a template without references, every pair of dollar signs made one. -/
def literalText : Text → Text
  | [] => []
  | '$' :: '$' :: rest => '$' :: literalText rest
  | c :: rest => c :: literalText rest

end SourceMend.Template
