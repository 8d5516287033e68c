import SqfCheck.Directive
import SqfCheck.Files

/-!
# Following inclusions

`Prepared.ofSource` blanks the directives of a script and collects its macros and inclusions,
entering each included file that can be read the first time it is met (`Survey.enter`). A path
that starts with a slash of either sort is looked up below the root, if there is one, and any
other beside the file that includes it.

Files are told apart by their identity, and a file that could not be read is not tried again.
An inclusion is only followed into a file not met before, so the files entered one inside the
other are all different and `Files.count` bounds how deep they nest.
-/

namespace SqfCheck

/-- Where the inclusion of `file` in `source` leads, if that is known. -/
def inclusionTarget (root : Option Path) (source : Path) (file : String) : Option Path :=
  match file.toList with
  | '\\' :: _ | '/' :: _ => root.map (·.join (Path.ofScript file))
  | _ => some (source.parent.join (Path.ofScript file))

/-- What has been collected, and the files met so far. -/
structure Survey where
  /-- The macros and inclusions collected. -/
  ledger : Ledger := {}
  /-- The identities of the files met. -/
  met : List FileId := []

namespace Survey

/-- The survey after one directive of `source`, where `enter` surveys the text of a file. -/
def apply (files : Files) (root : Option Path) (enter : Path → String → Survey → Survey)
    (source : Path) (s : Survey) : Directive → Survey
  | .definition name arguments value span =>
    { s with ledger := s.ledger.define name arguments ⟨source, span, value⟩ }
  | .inclusion file =>
    let s := { s with ledger := s.ledger.addInclusion file source }
    match inclusionTarget root source file with
    | none => s
    | some path =>
      if files.identity path ∈ s.met then s
      else
        let s := { s with met := files.identity path :: s.met }
        match files.read path with
        | .ok text => enter path text s
        | .error _ => s

/-- The survey after all directives of a text and of the files it includes, nested at most
`depth` deep. -/
def enter (files : Files) (root : Option Path) : Nat → Path → String → Survey → Survey
  | 0, _, _, s => s
  | depth + 1, source, text, s =>
    (Directive.all text).foldl (apply files root (enter files root depth) source) s

end Survey

/-- A script ready to be read : its text without directives, and what they say. -/
structure Prepared where
  /-- The text with the lines of directives emptied. -/
  text : String
  /-- The macros and inclusions. -/
  ledger : Ledger

namespace Prepared

/-- The script `source` in the file `name`, prepared. -/
def ofSource (files : Files) (root : Option Path) (name : Path) (source : String) : Prepared where
  text := Directive.blank source
  ledger :=
    (Survey.enter files root (files.count + 1) name source
      { met := [files.identity name] }).ledger

end Prepared

end SqfCheck
