import Phrasebook.Disk.Machine
import Phrasebook.Main
import Phrasebook.Proofs.Template.Beginning
import Phrasebook.Proofs.Template.Parts
import Phrasebook.Proofs.Document.RoundTrip
import Phrasebook.Proofs.Document.Failure
import Phrasebook.Proofs.Document.Separation
import Phrasebook.Proofs.Document.Lookup
import Phrasebook.Proofs.Document.Accessor
import Phrasebook.Proofs.Script.Depth
import Phrasebook.Proofs.Script.TemplateLiteral
import Phrasebook.Proofs.Script.Indentation
import Phrasebook.Proofs.Schema.Consistency
import Phrasebook.Proofs.Schema.Extension
import Phrasebook.Proofs.Schema.Collision
import Phrasebook.Proofs.Schema.Description
import Phrasebook.Proofs.Schema.Order
import Phrasebook.Proofs.Schema.Origin
import Phrasebook.Proofs.Schema.Numbering
import Phrasebook.Proofs.Artifact.Modules
import Phrasebook.Proofs.Artifact.Depiction
import Phrasebook.Proofs.Artifact.Agreement
import Phrasebook.Proofs.Artifact.Encoding
import Phrasebook.Proofs.Artifact.Constancy
import Phrasebook.Proofs.Compile.Repetition
import Phrasebook.Proofs.Rebuild.Count
import Phrasebook.Proofs.Rebuild.Closing
import Phrasebook.Proofs.Rebuild.Changes
import Phrasebook.Proofs.Disk.AllOrNothing
import Phrasebook.Proofs.Disk.Freshness
import Phrasebook.Proofs.Artifact.Hoisting
import Phrasebook.Proofs.Settings.Configuration
import Phrasebook.Proofs.Diagnostic.Format
