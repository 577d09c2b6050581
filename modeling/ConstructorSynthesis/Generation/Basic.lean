import ConstructorSynthesis.Blueprint.Schedule
import ConstructorSynthesis.Blueprint.Selection
import ConstructorSynthesis.Document.Reading
import ConstructorSynthesis.Generation.Error
import ConstructorSynthesis.Source.Rendering
import ConstructorSynthesis.Source.SourceUnit

/-!
Generation from declarations to units: the catalog is checked if the settings
ask for it, its targets are drafted, and a unit is rendered for each. The check
comes first, so an inconsistent catalog fails also in a cancelled run.
-/

namespace ConstructorSynthesis

def Drafted.unit (settings : Settings) (d : Drafted) : SourceUnit :=
  ⟨d.target.stem, d.blueprint.render settings d.target⟩

/-- One unit for each target. A cancelled run stops before the first target, so
it succeeds only if there is none. -/
def generateTargets (settings : Settings) (cancelled : Bool) (targets : List Target) :
    Except GenerationError (List SourceUnit) :=
  if cancelled && !targets.isEmpty then .error .cancelled
  else .ok ((draftAll targets).map (Drafted.unit settings))

/-- The check that the settings ask for. -/
def Settings.admits (settings : Settings) (c : Catalog) : Except Inconsistency Unit :=
  if settings.checks then c.check else .ok ()

def generate (settings : Settings) (cancelled : Bool) (c : Catalog) :
    Except GenerationError (List SourceUnit) :=
  match settings.admits c with
  | .error error => .error (.declarations error)
  | .ok _ => generateTargets settings cancelled c.targets

/-- Generates with the default settings from what reading a document gave. -/
def generateRead (read : Except Document.Error Catalog) :
    Except GenerationError (List SourceUnit) :=
  match read with
  | .error error => .error (.document error)
  | .ok c => generate .default false c

end ConstructorSynthesis
