import MeshSharding.Pipeline.Run
import MeshSharding.Program.History
import MeshSharding.Proofs.ListsAndChecks
import MeshSharding.Proofs.Axis.Parts
import MeshSharding.Proofs.Axis.Suits
import MeshSharding.Proofs.Sharding.Suits
import MeshSharding.Proofs.Rule.Regular
import MeshSharding.Proofs.Projection.Shares
import MeshSharding.Proofs.Projection.ReadBack
import MeshSharding.Proofs.Projection.Assignment
import MeshSharding.Proofs.Projection.Tensors
import MeshSharding.Proofs.Vote.Agreement
import MeshSharding.Proofs.Vote.Commitments
import MeshSharding.Proofs.Program.Definition
import MeshSharding.Proofs.Reshard.Edits
import MeshSharding.Proofs.Reshard.Erasure
import MeshSharding.Proofs.Reshard.After
import MeshSharding.Proofs.Reshard.Visit
import MeshSharding.Proofs.Reshard.Targets
import MeshSharding.Proofs.Reshard.Decides
import MeshSharding.Proofs.Reshard.Again
import MeshSharding.Proofs.Reshard.Settled
import MeshSharding.Proofs.Reshard.Consistency
import MeshSharding.Proofs.Reshard.Opened
import MeshSharding.Proofs.Reshard.Reach
import MeshSharding.Proofs.Reshard.Locality
import MeshSharding.Proofs.Reshard.Revised
import MeshSharding.Proofs.Axis.Rejoined
import MeshSharding.Proofs.Projection.WriteBack
import MeshSharding.Proofs.Rule.Meeting
import MeshSharding.Proofs.Reshard.Confirmed
import MeshSharding.Proofs.Vote.InPlace
import MeshSharding.Proofs.Reshard.Meshes
import MeshSharding.Proofs.Axis.StrictPrefix
import MeshSharding.Proofs.Vote.Maximal
import MeshSharding.Proofs.Reshard.Inserted
import MeshSharding.Proofs.Reshard.Layout
import MeshSharding.Proofs.Reshard.Redirected
import MeshSharding.Proofs.Rule.Coverage
import MeshSharding.Proofs.Sharding.Devices
import MeshSharding.Proofs.Program.InPlace
import MeshSharding.Proofs.Reshard.Undisturbed
import MeshSharding.Proofs.Program.Declarations
import MeshSharding.Proofs.Reshard.CommonMesh
import MeshSharding.Proofs.Text.Legible
import MeshSharding.Proofs.Sharding.Text
import MeshSharding.Proofs.Sharding.Symbol
import MeshSharding.Proofs.Rule.Text
import MeshSharding.Proofs.Vote.Supporters
import MeshSharding.Proofs.Vote.Majority
import MeshSharding.Proofs.Program.Acceptable
import MeshSharding.Proofs.Projection.Handout
import MeshSharding.Proofs.Axis.Continuation
import MeshSharding.Proofs.Axis.Bounded
import MeshSharding.Proofs.Projection.Reassigned
import MeshSharding.Proofs.Projection.Written
import MeshSharding.Proofs.Rule.InnerProduct
import MeshSharding.Proofs.Projection.Bounded
import MeshSharding.Proofs.Vote.Bounded
import MeshSharding.Proofs.Reshard.Bounded
