import Ketchup.Graph.Meaning
import Ketchup.Document.History
import Ketchup.Document.Atomicity
import Ketchup.Document.Approval
import Ketchup.Document.Concurrency
import Ketchup.Document.Incremental
import Ketchup.Document.Signing
import Ketchup.Persistence.HistoryRoundTrip
import Ketchup.Persistence.ContainerRoundTrip
import Ketchup.Persistence.Chunking
import Ketchup.Viewer.Restored
import Ketchup.Viewer.PackageRoundTrip
import Ketchup.Pdm.Sequence
import Ketchup.Pdm.Interleaving
import Ketchup.Pdm.Comparison
import Ketchup.Cutting.Instances
import Ketchup.Cutting.BarPlans
import Ketchup.Cutting.Search
import Ketchup.Cutting.Guillotine
import Ketchup.Product.ConvertedPaths
import Ketchup.Dependencies.Order
import Ketchup.Graph.Order
import Ketchup.Graph.Reuse
import Ketchup.Graph.Digests
import Ketchup.Graph.Resolution
import Ketchup.Graph.Printing
import Ketchup.Product.EveryParameter
import Ketchup.References.OneByOne
import Ketchup.Scheduler.Frames
import Ketchup.Program.Archive
import Ketchup.Underlay.JoinLoose
import Ketchup.Dxf.Accounting
import Ketchup.Dxf.WithinLimit
import Ketchup.Dxf.Escapes
import Ketchup.Dxf.R12Text
import Ketchup.DrawingExport.Arcs
import Ketchup.Mesh.Validation
import Ketchup.Persistence.CheckedForm
import Ketchup.Sketches.Refreshed
import Ketchup.Contact.Boundary
import Ketchup.Loads.Carried
import Ketchup.Exact.Connectivity
import Ketchup.Assemblies.Articulated
