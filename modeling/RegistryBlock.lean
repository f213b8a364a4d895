import RegistryBlock.Main
import RegistryBlock.Proofs.Alias.Longest
import RegistryBlock.Proofs.Command.Again
import RegistryBlock.Proofs.Command.Exit
import RegistryBlock.Proofs.Command.Verbose
import RegistryBlock.Proofs.History.Snapshot
import RegistryBlock.Proofs.Ignore.Segments
import RegistryBlock.Proofs.Journal.Replay
import RegistryBlock.Proofs.Layout.Block
import RegistryBlock.Proofs.Layout.BySegments
import RegistryBlock.Proofs.Layout.Collision
import RegistryBlock.Proofs.Layout.Directory
import RegistryBlock.Proofs.Package.Namespace
import RegistryBlock.Proofs.Package.Stock
import RegistryBlock.Proofs.Project.Escapes
import RegistryBlock.Proofs.Project.Folder
import RegistryBlock.Proofs.Project.Members
import RegistryBlock.Proofs.Project.Nearest
import RegistryBlock.Proofs.Project.Scan
import RegistryBlock.Proofs.Project.Visits
import RegistryBlock.Proofs.Reach.Closure
import RegistryBlock.Proofs.Reach.Order
import RegistryBlock.Proofs.Reach.Rounds
import RegistryBlock.Proofs.Specifier.Climb
import RegistryBlock.Proofs.Specifier.Directory
import RegistryBlock.Proofs.Specifier.Marks
import RegistryBlock.Proofs.Specifier.Natural
import RegistryBlock.Proofs.Specifier.Program
import RegistryBlock.Proofs.Specifier.Share
import RegistryBlock.Proofs.Layout.Theme
import RegistryBlock.Proofs.Path.Reduced
