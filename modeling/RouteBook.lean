import RouteBook.LogFilter
import RouteBook.Main
import RouteBook.Session
import RouteBook.Proofs.Text.Line
import RouteBook.Proofs.Annotations.Grammar
import RouteBook.Proofs.Text.Lossy
import RouteBook.Proofs.Annotations.FrontEnds
import RouteBook.Proofs.Artifact.RoundTrip
import RouteBook.Proofs.Artifact.HalfWritten
import RouteBook.Proofs.Annotations.Routes
import RouteBook.Proofs.Artifact.Saved
import RouteBook.Proofs.Catalog.Names
import RouteBook.Proofs.CommandLine.Requests
import RouteBook.Proofs.CommandLine.Pipeline
import RouteBook.Proofs.Watch.Updates
import RouteBook.Proofs.Session.Publication
import RouteBook.Proofs.Session.Counting
import RouteBook.Proofs.Annotations.Locality
import RouteBook.Proofs.Session.Agreement
import RouteBook.Proofs.Watch.Checked
import RouteBook.Proofs.FileTree.Frame
import RouteBook.Proofs.CommandLine.AllOrNothing
import RouteBook.Proofs.Template.Decomposition
import RouteBook.Proofs.Resolution.Segmentwise
import RouteBook.Proofs.Annotations.Documents
import RouteBook.Proofs.Catalog.Strict
import RouteBook.Proofs.Artifact.Decoding
import RouteBook.Proofs.Resolution.Resolved
import RouteBook.Proofs.CommandLine.Printed
import RouteBook.Proofs.Artifact.Defects
import RouteBook.Proofs.Session.Trace
import RouteBook.Proofs.CommandLine.Resolving
import RouteBook.Proofs.Config.Decoded
