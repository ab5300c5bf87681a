import ArrayEngine.Json.Records
import ArrayEngine.Sampling
import ArrayEngine.Proofs.Compatibility
import ArrayEngine.Proofs.Composition
import ArrayEngine.Proofs.DeviceHistory
import ArrayEngine.Proofs.Handles
import ArrayEngine.Proofs.Isolation
import ArrayEngine.Proofs.Protocol
import ArrayEngine.Proofs.Insertion
import ArrayEngine.Proofs.Records
import ArrayEngine.Proofs.ZeroSigns
import ArrayEngine.Proofs.Typing
import ArrayEngine.Proofs.Frame
import ArrayEngine.Proofs.Steps
import ArrayEngine.Proofs.Extents
import ArrayEngine.Proofs.Cache
import ArrayEngine.Proofs.Tokens
import ArrayEngine.Proofs.Descriptions
import ArrayEngine.Proofs.Expressions
import ArrayEngine.Proofs.RowSums
import ArrayEngine.Proofs.Representation
