import MathScript.Execution
import MathScript.Files
import MathScript.Proofs.Record.Codec
import MathScript.Record.Reader
import MathScript.Settings.Yaml
import MathScript.Proofs.Record.RoundTrip
import MathScript.Proofs.Grammar.Completeness
import MathScript.Proofs.Grammar.Decision
import MathScript.Proofs.Record.Source
import MathScript.Proofs.Code.Lines
import MathScript.Proofs.Code.SameCode
import MathScript.Proofs.Artifact.Payload
import MathScript.Proofs.Artifact.Opening
import MathScript.Proofs.Artifact.Delivery
import MathScript.Proofs.Code.SlotAgreement
import MathScript.Proofs.Artifact.Leniency
import MathScript.Proofs.Settings.Trust
import MathScript.Proofs.Artifact.Reproducible
import MathScript.Proofs.Record.Producible
import MathScript.Proofs.Artifact.Transparency
import MathScript.Proofs.Token.Segments
import MathScript.Proofs.Token.Seam
import MathScript.Proofs.Grammar.Composition
import MathScript.Proofs.Grammar.Bookkeeping
import MathScript.Proofs.Token.Munch
import MathScript.Proofs.Token.Layout
import MathScript.Proofs.Grammar.Limits
import MathScript.Proofs.Grammar.Earliest
import MathScript.Proofs.Code.Emission
import MathScript.Proofs.Grammar.Joints
import MathScript.Proofs.Grammar.Conversion
import MathScript.Proofs.Code.Teardown
import MathScript.Proofs.Artifact.Folders
import MathScript.Proofs.Artifact.Running
import MathScript.Proofs.Code.Numeral
import MathScript.Proofs.Record.Containers
import MathScript.Proofs.Code.Blocks
